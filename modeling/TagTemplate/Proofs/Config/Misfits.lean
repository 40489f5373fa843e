import Mathlib.Algebra.Ring.Int.Defs
import TagTemplate.Proofs.Config.Parts

/-! How loading can fail. What does not fit is told with its place, which lies below the path that was
given. The other failures each have their reason in the value that is loaded: an integer beyond all
numbers with a fraction, an integer too long to be written, or keys that cannot be sorted. -/
namespace TagTemplate.Config

theorem prefix_append (path rest : String) : path.toList <+: (path ++ rest).toList := by
  rw [String.toList_append]
  exact List.prefix_append _ _

theorem prefix_append_append (path middle rest : String) :
    path.toList <+: (path ++ middle ++ rest).toList := by
  rw [String.append_assoc]
  exact prefix_append path _

def Unordered (keys : List Value) : Prop :=
  ∃ a ∈ keys, ∃ b ∈ keys, Value.less? a b = none

/-- Why loading a value at a path may fail. -/
inductive Explained (value : Value) (path : String) : LoadError → Prop where
  | misfit {place : String} (reason : Reason) :
    path.toList <+: place.toList → Explained value path (.misfit place reason)
  | unsortable {part : Value} {entries : List (Value × Value)} :
    Value.IsPart part value → part.entries? = some entries →
    Unordered (entries.map Prod.fst) → Explained value path .unsortable
  | tooLarge {n : Number} :
    Value.IsPart (.number n) value → n.toFloat? = none → Explained value path .tooLarge
  | tooLong : value.HoldsLong → Explained value path .tooLong

def EndsWell (value : Value) (path : String) (result : Except LoadError α) : Prop :=
  ∀ e, result = .error e → Explained value path e

variable {α β : Type} {value part key loaded : Value} {path below : String}
  {entries : List (Value × Value)}

theorem Explained.of_part {e : LoadError} (hpart : Value.IsPart part value)
    (hbelow : path.toList <+: below.toList) (h : Explained part below e) :
    Explained value path e := by
  cases h with
  | misfit reason hplace => exact .misfit reason (hbelow.trans hplace)
  | unsortable hinner hentries hkeys => exact .unsortable (hinner.trans hpart) hentries hkeys
  | tooLarge hinner hlarge => exact .tooLarge (hinner.trans hpart) hlarge
  | tooLong hlong => exact .tooLong (hlong.of_part hpart)

namespace EndsWell

theorem ok (a : α) : EndsWell value path (.ok a : Except LoadError α) := nofun

theorem error {e : LoadError} (h : Explained value path e) :
    EndsWell value path (.error e : Except LoadError α) := by
  rintro _ ⟨⟩
  exact h

theorem refused (reason : Reason) :
    EndsWell value path (.error (.misfit path reason) : Except LoadError α) :=
  error (.misfit reason (List.prefix_refl _))

theorem of_part {result : Except LoadError α} (hpart : Value.IsPart part value)
    (hbelow : path.toList <+: below.toList) (h : EndsWell part below result) :
    EndsWell value path result :=
  fun e he => (h e he).of_part hpart hbelow

theorem bind {result : Except LoadError α} {f : α → Except LoadError β}
    (h : EndsWell value path result) (hf : ∀ a, result = .ok a → EndsWell value path (f a)) :
    EndsWell value path (result >>= f) := by
  cases result with
  | error e => exact error (h e rfl)
  | ok a => exact hf a rfl

theorem map {result : Except LoadError α} (f : α → β) (h : EndsWell value path result) :
    EndsWell value path (result.map f) := by
  cases result with
  | error e => exact error (h e rfl)
  | ok a => exact ok (f a)

end EndsWell

variable {variant : Schema} {place : String} {reason : Reason}

theorem load_union (variants : List Schema) (path : String) (value : Value) :
    load (.union variants) path value = loadUnion variants [] path value := by
  rw [load]

theorem load_mapping (h : value.entries? = some entries) (key item : Schema) (path : String) :
    load (.mapping key item) path value =
      (loadEntries (load key) (load item) path [] entries).map .mapping := by
  rw [load]
  simp only [h]

theorem load_record (h : value.entries? = some entries) (name : String) (fields : List Field)
    (path : String) :
    load (.record name fields) path value =
      checkKeys path ((fields.filter Field.settable).map Field.name) entries >>= fun _ =>
        loadFields fields path entries >>= fun held => pure (.record name held) := by
  rw [load]
  simp only [h]

theorem loadUnion_cons_cases (variant : Schema) (rest : List Schema) (refusals : List String)
    (path : String) (value : Value) :
    (loadUnion (variant :: rest) refusals path value = load variant path value ∧
      ∀ place reason, load variant path value ≠ .error (.misfit place reason)) ∨
    ∃ place reason refusals', load variant path value = .error (.misfit place reason) ∧
      loadUnion (variant :: rest) refusals path value = loadUnion rest refusals' path value := by
  cases variant with
  | null =>
    cases value with
    | null => exact .inl ⟨rfl, nofun⟩
    | _ => exact .inr ⟨path, _, refusals, rfl, rfl⟩
  | _ =>
    simp only [loadUnion]
    split
    · next h => exact .inl ⟨h.symm, by simp [h]⟩
    · next h => exact .inr ⟨_, _, _, h, rfl⟩
    · next hother h => exact .inl ⟨h.symm, fun place reason hmisfit =>
        hother place reason (Except.error.inj (h.symm.trans hmisfit))⟩

theorem loadUnion_of_ok (h : load variant path value = .ok loaded) (rest : List Schema)
    (refusals : List String) : loadUnion (variant :: rest) refusals path value = .ok loaded := by
  obtain ⟨hfirst, -⟩ | ⟨_, _, _, hmisfit, -⟩ := loadUnion_cons_cases variant rest refusals path value
  · exact hfirst.trans h
  · cases h.symm.trans hmisfit

theorem loadUnion_of_misfit (h : load variant path value = .error (.misfit place reason))
    (rest : List Schema) (refusals : List String) :
    ∃ refusals', loadUnion (variant :: rest) refusals path value =
      loadUnion rest refusals' path value := by
  obtain ⟨-, hfits⟩ | ⟨_, _, refusals', -, hrest⟩ :=
    loadUnion_cons_cases variant rest refusals path value
  · exact absurd h (hfits place reason)
  · exact ⟨refusals', hrest⟩

theorem eq_of_expect {what : String} {fits : Bool} (h : expect path what value fits = .ok loaded) :
    loaded = value := by
  unfold expect at h
  split at h
  · exact (Except.ok.inj h).symm
  · cases h

mutual
theorem load_key : (schema : Schema) → (path : String) → (key : Value) → key.entries? = none →
    ∀ loaded, load schema path key = .ok loaded → loaded = key ∨ ∃ x, loaded = .float x
  | .any, _, _, _, _, h => .inl (Except.ok.inj h).symm
  | .null, _, _, _, _, h => .inl (eq_of_expect h)
  | .text, _, _, _, _, h => .inl (eq_of_expect h)
  | .int, _, _, _, _, h => .inl (eq_of_expect h)
  | .bool, _, _, _, _, h => .inl (eq_of_expect h)
  | .float, _, key, _, _, h => by
    simp only [load, loadFloat] at h
    split at h
    · split at h
      · exact .inr ⟨_, (Except.ok.inj h).symm⟩
      · cases h
    · cases h
  | .union variants, path, key, hkey, loaded, h => loadUnion_key variants [] path key hkey loaded h
  | .mapping .., _, key, hkey, _, h => by
    simp only [load, hkey] at h
    cases h
  | .record .., _, key, hkey, _, h => by
    simp only [load, hkey] at h
    cases h
  | .unsupported _, _, _, _, _, h => nomatch h

theorem loadUnion_key : (variants : List Schema) → (refusals : List String) → (path : String) →
    (key : Value) → key.entries? = none →
    ∀ loaded, loadUnion variants refusals path key = .ok loaded →
      loaded = key ∨ ∃ x, loaded = .float x
  | [], _, _, _, _, _, h => nomatch h
  | variant :: rest, refusals, path, key, hkey, loaded, h => by
    obtain ⟨hfirst, -⟩ | ⟨_, _, refusals', -, hrest⟩ :=
      loadUnion_cons_cases variant rest refusals path key
    · exact load_key variant path key hkey loaded (hfirst.symm.trans h)
    · exact loadUnion_key rest refusals' path key hkey loaded (hrest.symm.trans h)
end

theorem expect_endsWell (what : String) (fits : Bool) :
    EndsWell value path (expect path what value fits) := by
  unfold expect
  split
  · exact .ok value
  · exact .refused _

theorem loadFloat_endsWell (path : String) (value : Value) :
    EndsWell value path (loadFloat path value) := by
  unfold loadFloat
  split
  · split
    · exact .ok _
    · next hlarge => exact .error (.tooLarge .self hlarge)
  · exact .refused _

theorem exists_unordered_of_sorted? {keys : List Value} (h : Value.sorted? keys = none) :
    Unordered keys := by
  unfold Value.sorted? at h
  split at h
  · cases h
  · cases h
  · split at h
    · cases h
    · next hall =>
      have hpair : ∃ a ∈ keys, ∃ b ∈ keys, Value.less? a b = none := by simpa using hall
      exact hpair

theorem mem_of_sorted? {keys sorted : List Value} (h : Value.sorted? keys = some sorted) :
    ∀ key ∈ sorted, key ∈ keys := by
  unfold Value.sorted? at h
  split at h
  · cases h; simp
  · cases h; simp
  · split at h
    · cases h
      simp
    · cases h

theorem checkKeys_endsWell (hvalue : value.entries? = some entries) (path : String)
    (names : List String) : EndsWell value path (checkKeys path names entries) := by
  unfold checkKeys
  generalize hunknown :
    (entries.map Prod.fst).filter (fun k => !names.any fun n => k.sameKey (.text n)) = unknown
  have hmem : ∀ key ∈ unknown, key ∈ entries.map Prod.fst := by
    subst hunknown
    exact fun key hkey => (List.mem_filter.mp hkey).1
  simp only
  split
  · exact .ok ()
  · split
    · next keys hsorted =>
      split
      · exact .refused _
      · next hlong =>
        obtain ⟨key, hkey, hlong⟩ : ∃ key ∈ keys, key.isWritable = false := by simpa using hlong
        obtain ⟨⟨_, item⟩, hentry, rfl⟩ := List.mem_map.mp (hmem key (mem_of_sorted? hsorted key hkey))
        exact .error (.tooLong
          ((Value.holdsLong_of_not_isWritable _ hlong).of_part (Value.isPart_key hvalue hentry)))
    · next hsorted =>
      obtain ⟨a, ha, b, hb, hless⟩ := exists_unordered_of_sorted? hsorted
      exact .error (.unsortable .self hvalue ⟨a, hmem a ha, b, hmem b hb, hless⟩)

theorem mem_of_lookup {name : String} (h : lookup entries name = some value) :
    ∃ key, (key, value) ∈ entries := by
  obtain ⟨⟨key, item⟩, hfind, rfl⟩ := Option.map_eq_some_iff.mp h
  exact ⟨key, List.mem_of_find?_eq_some hfind⟩

theorem lookup_of_settable {name : String} {settable : Bool}
    (h : (if settable then lookup entries name else none) = some value) :
    lookup entries name = some value := by
  split at h
  · exact h
  · cases h

theorem loadField_endsWell {loadGiven : String → Value → Except LoadError Value}
    {given : Option Value} (h : ∀ v, given = some v → EndsWell value path (loadGiven path v))
    (default : Option Value) (settable : Bool) :
    EndsWell value path (loadField loadGiven path given default settable) := by
  cases given with
  | some v => exact .map some (h v rfl)
  | none =>
    cases default with
    | some v => exact .ok _
    | none =>
      cases settable with
      | true => exact .refused .missing
      | false => exact .ok none

/-- Entries are loaded one after another, so only a key, an item, or a path made from a loaded key that
is too long can end it. -/
theorem loadEntries_endsWell {loadKey loadItem : String → Value → Except LoadError Value}
    (hvalue : value.entries? = some entries) (path : String)
    (hkeys : ∀ entry ∈ entries, ∀ below, EndsWell entry.1 below (loadKey below entry.1))
    (hlong : ∀ entry ∈ entries, ∀ below loaded, loadKey below entry.1 = .ok loaded →
      loaded.isWritable = false → entry.1.HoldsLong)
    (hitems : ∀ entry ∈ entries, ∀ below, EndsWell entry.2 below (loadItem below entry.2))
    (rest : List (Value × Value)) (hrest : ∀ entry ∈ rest, entry ∈ entries)
    (done : List (Value × Value)) :
    EndsWell value path (loadEntries loadKey loadItem path done rest) := by
  induction rest generalizing done with
  | nil => exact .ok done
  | cons entry rest ih =>
    obtain ⟨key, item⟩ := entry
    have hentry : (key, item) ∈ entries := hrest _ List.mem_cons_self
    have hkey := Value.isPart_key hvalue hentry
    have hitem := Value.isPart_item hvalue hentry
    refine .bind (.of_part hkey (prefix_append path _) (hkeys _ hentry _)) fun loaded hloaded => ?_
    split
    · next hwritten =>
      have hkeyLong := hlong _ hentry _ loaded hloaded (by simpa using hwritten)
      exact .error (.tooLong (hkeyLong.of_part hkey))
    · refine .bind (.of_part hitem (prefix_append_append path _ _) (hitems _ hentry _)) fun _ _ => ?_
      exact ih (fun other hother => hrest other (List.mem_cons_of_mem _ hother)) _

theorem loadUnion_endsWell (variants : List Schema)
    (h : ∀ variant ∈ variants, EndsWell value path (load variant path value))
    (refusals : List String) : EndsWell value path (loadUnion variants refusals path value) := by
  induction variants generalizing refusals with
  | nil => exact .refused _
  | cons variant rest ih =>
    obtain ⟨hfirst, -⟩ | ⟨_, _, refusals', -, hrest⟩ :=
      loadUnion_cons_cases variant rest refusals path value
    · rw [hfirst]
      exact h variant List.mem_cons_self
    · rw [hrest]
      exact ih (fun other hother => h other (List.mem_cons_of_mem variant hother)) refusals'

mutual
theorem load_endsWell : (schema : Schema) → (path : String) → (value : Value) → value.FlatKeys →
    EndsWell value path (load schema path value)
  | .any, _, value, _ => .ok value
  | .null, _, _, _ => expect_endsWell _ _
  | .text, _, _, _ => expect_endsWell _ _
  | .int, _, _, _ => expect_endsWell _ _
  | .bool, _, _, _ => expect_endsWell _ _
  | .float, path, value, _ => loadFloat_endsWell path value
  | .union variants, path, value, hflat =>
    loadUnion_endsWell variants (variants_endWell variants path value hflat) []
  | .mapping keySchema valueSchema, path, value, hflat => by
    simp only [load]
    split
    · next entries hvalue =>
      refine .map _ (loadEntries_endsWell hvalue path ?_ ?_ ?_ entries (fun _ h => h) [])
      · intro entry hentry below
        exact load_endsWell keySchema below entry.1 (hflat.of_part (Value.isPart_key hvalue hentry))
      · intro entry hentry below loaded hloaded hlong
        have hentries := hflat value entries .self hvalue entry hentry
        obtain rfl | ⟨x, rfl⟩ := load_key keySchema below entry.1 hentries loaded hloaded
        · exact Value.holdsLong_of_not_isWritable _ hlong
        · cases hlong
      · intro entry hentry below
        exact load_endsWell valueSchema below entry.2
          (hflat.of_part (Value.isPart_item hvalue hentry))
    · exact .refused _
  | .record name fields, path, value, hflat => by
    simp only [load]
    split
    · next entries hvalue =>
      refine .bind (checkKeys_endsWell hvalue path _) fun _ _ => ?_
      exact .bind (loadFields_endsWell fields path entries value hvalue hflat) fun _ _ => .ok _
    · exact .refused _
  | .unsupported _, _, _, _ => .refused _

theorem variants_endWell : (variants : List Schema) → (path : String) → (value : Value) →
    value.FlatKeys → ∀ variant ∈ variants, EndsWell value path (load variant path value)
  | [], _, _, _ => nofun
  | variant :: rest, path, value, hflat => by
    rintro _ (_ | ⟨_, hother⟩)
    · exact load_endsWell variant path value hflat
    · exact variants_endWell rest path value hflat _ hother

theorem loadFields_endsWell : (fields : List Field) → (path : String) →
    (entries : List (Value × Value)) → (value : Value) → value.entries? = some entries →
    value.FlatKeys → EndsWell value path (loadFields fields path entries)
  | [], _, _, _, _, _ => .ok []
  | .mk name schema default settable :: rest, path, entries, value, hvalue, hflat => by
    have hbelow : path.toList <+: (s!"{path}.{name}").toList := prefix_append_append path _ _
    have hothers := loadFields_endsWell rest path entries value hvalue hflat
    simp only [loadFields]
    refine .bind (.of_part .self hbelow ?_) fun held _ => .bind hothers fun _ _ => .ok _
    refine loadField_endsWell (fun given hgiven => ?_) default settable
    obtain ⟨key, hentry⟩ := mem_of_lookup (lookup_of_settable hgiven)
    have hpart := Value.isPart_item hvalue hentry
    exact .of_part hpart (List.prefix_refl _) (load_endsWell schema _ given (hflat.of_part hpart))
end

/-- By every schema and at every path, loading gives a value or tells what does not fit below that
path. Anything else that ends it comes from an integer or from keys inside the value: an integer that
no number with a fraction comes near, one with too many digits to be written, or keys of one mapping
that cannot be compared. -/
theorem load_tells_misfits (schema : Schema) (path : String) {value : Value}
    (hflat : value.FlatKeys) :
    (∃ loaded, load schema path value = .ok loaded) ∨
    ∃ e, load schema path value = .error e ∧
      ((e.name = "ConfigLoadError" ∧ path.toList <+: e.message.toList) ∨
        (e = .tooLarge ∧ ∃ n, Value.IsPart (.number n) value ∧ n.toFloat? = none) ∨
        (e = .tooLong ∧ ∃ n, Value.IsPart (.number n) value ∧ n.isWritable = false) ∨
        (e = .unsortable ∧ ∃ part entries, Value.IsPart part value ∧
          part.entries? = some entries ∧ Unordered (entries.map Prod.fst))) := by
  rcases hload : load schema path value with e | loaded
  · refine .inr ⟨e, rfl, ?_⟩
    cases load_endsWell schema path value hflat e hload with
    | misfit reason hplace =>
      refine .inl ⟨rfl, hplace.trans ?_⟩
      exact prefix_append_append _ _ _
    | tooLarge hpart hlarge => exact .inr (.inl ⟨rfl, _, hpart, hlarge⟩)
    | tooLong hlong => exact .inr (.inr (.inl ⟨rfl, hlong⟩))
    | unsortable hpart hentries hkeys => exact .inr (.inr (.inr ⟨rfl, _, _, hpart, hentries, hkeys⟩))
  · exact .inl ⟨loaded, rfl⟩

/-- A union of a mapping to numbers and of nothing, for a mapping in which a text has a list. -/
theorem list_in_mapping_misfit :
    let value := Value.mapping [(.int 1, .float 0.5), (.text "a", .list [.null])]
    let schema := Schema.union [.mapping .any .float, .null]
    value.FlatKeys ∧
      ((∃ loaded, load schema "$" value = .ok loaded) ∨
      ∃ e, load schema "$" value = .error e ∧
        ((e.name = "ConfigLoadError" ∧ "$".toList <+: e.message.toList) ∨
          (e = .tooLarge ∧ ∃ n, Value.IsPart (.number n) value ∧ n.toFloat? = none) ∨
          (e = .tooLong ∧ ∃ n, Value.IsPart (.number n) value ∧ n.isWritable = false) ∨
          (e = .unsortable ∧ ∃ part entries, Value.IsPart part value ∧
            part.entries? = some entries ∧ Unordered (entries.map Prod.fst)))) := by
  intro value schema
  have hlist : (Value.list [.null]).FlatKeys :=
    .of_children nofun (by simpa [Value.children] using Value.FlatKeys.of_no_children rfl)
  have hflat : value.FlatKeys := by
    refine .of_children ?_ ?_
    · rintro _ ⟨⟩
      simp [Value.int, Value.entries?]
    · simp only [value, Value.children, List.map_cons, List.map_nil, List.cons_append,
        List.nil_append, List.forall_mem_cons]
      exact ⟨.of_no_children rfl, .of_no_children rfl, .of_no_children rfl, hlist, nofun⟩
  exact ⟨hflat, load_tells_misfits schema "$" hflat⟩

/-- The unknown keys `1` and `a` have no order, and no number with a fraction is near `10 ^ 400`. Both
come out of a union that would accept anything. -/
theorem failures_leave_union :
    load (.union [.record "C" [], .any]) "$" (.mapping [(.int 1, .null), (.text "a", .null)]) =
        .error .unsortable ∧
      load (.union [.float, .any]) "$" (.int (10 ^ 400)) = .error .tooLarge ∧
      LoadError.unsortable.name = "TypeError" ∧ LoadError.tooLarge.name = "OverflowError" := by
  have hlarge : Number.toFloat? (.int (10 ^ 400)) = none := by decide +kernel
  refine ⟨rfl, ?_, rfl, rfl⟩
  simp only [load, loadUnion, loadFloat, Value.int, hlarge]

end TagTemplate.Config
