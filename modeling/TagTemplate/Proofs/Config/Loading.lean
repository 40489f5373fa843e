import TagTemplate.Proofs.Config.Matching

/-! Loading is sound and complete for schemas. A plain value that matches is loaded and becomes what
the rules say, which is a value of the kind that was asked for; one that does not match is told as no
fit. -/
namespace TagTemplate.Config

inductive Judged (fits : Prop) (makes : α → Prop) : Except LoadError α → Prop where
  | accepted {a : α} : makes a → Judged fits makes (.ok a)
  | refused {place : String} {reason : Reason} :
    ¬fits → Judged fits makes (.error (.misfit place reason))

variable {α β : Type} {schema key item variant : Schema} {variants rest : List Schema}
  {fields : List Field} {value loaded : Value} {entries : List (Value × Value)}
  {items done : List (String × Value)} {path name place : String} {reason : Reason}

namespace Judged

variable {fits fits' : Prop} {makes : α → Prop} {makes' : β → Prop} {x : Except LoadError α}

theorem imp {makes' : α → Prop} (h : Judged fits makes x) (hfits : fits' → fits)
    (hmakes : ∀ a, makes a → makes' a) : Judged fits' makes' x := by
  cases h with
  | accepted ha => exact .accepted (hmakes _ ha)
  | refused hno => exact .refused (mt hfits hno)

theorem bind {f : α → Except LoadError β} (h : Judged fits makes x) (hfits : fits' → fits)
    (hf : ∀ a, makes a → Judged fits' makes' (f a)) : Judged fits' makes' (x >>= f) := by
  cases h with
  | accepted ha => exact hf _ ha
  | refused hno => exact .refused (mt hfits hno)

theorem map (f : α → β) (h : Judged fits makes x) (hmakes : ∀ a, makes a → makes' (f a)) :
    Judged fits makes' (x.map f) := by
  cases h with
  | accepted ha => exact .accepted (hmakes _ ha)
  | refused hno => exact .refused hno

end Judged

theorem expect_judged {what : String} {fits : Bool} (hfits : Matches schema value → fits)
    (hmakes : fits → Becomes schema value value) :
    Judged (Matches schema value) (Becomes schema value) (expect path what value fits) := by
  cases fits with
  | true => exact .accepted (hmakes rfl)
  | false => exact .refused fun h => nomatch hfits h

theorem loadFloat_judged (hplain : value.Plain) (path : String) :
    Judged (Matches .float value) (Becomes .float value) (loadFloat path value) := by
  cases hplain with
  | number n hn =>
    obtain ⟨x, hx⟩ := Option.ne_none_iff_exists'.mp hn
    simp only [loadFloat, hx]
    exact .accepted (.float hx)
  | _ => exact .refused nofun

/-- A union is decided by the first of its variants that fits, whatever it is that they make. -/
theorem loadUnion_judged {fits : Schema → Prop} {makes : Schema → Value → Prop}
    (first : List Schema → Value → Prop)
    (hhere : ∀ variant rest loaded, makes variant loaded → first (variant :: rest) loaded)
    (hlater : ∀ variant rest loaded, ¬fits variant → first rest loaded →
      first (variant :: rest) loaded)
    (variants : List Schema)
    (h : ∀ variant ∈ variants, Judged (fits variant) (makes variant) (load variant path value))
    (refusals : List String) :
    Judged (∃ variant ∈ variants, fits variant) (first variants)
      (loadUnion variants refusals path value) := by
  induction variants generalizing refusals with
  | nil => exact .refused nofun
  | cons variant rest ih =>
    obtain ⟨hvariant, hrest⟩ := List.forall_mem_cons.mp h
    rcases hload : load variant path value with e | loaded <;> rw [hload] at hvariant
    · cases hvariant with
      | refused hno =>
        obtain ⟨refusals', hrefused⟩ := loadUnion_of_misfit hload rest refusals
        rw [hrefused]
        refine (ih hrest refusals').imp ?_ fun loaded => hlater _ _ _ hno
        rintro ⟨other, _ | ⟨_, hother⟩, hfits⟩
        · exact absurd hfits hno
        · exact ⟨other, hother, hfits⟩
    · cases hvariant with
      | accepted hmakes =>
        rw [loadUnion_of_ok hload]
        exact .accepted (hhere _ _ _ hmakes)

mutual
theorem Becomes.eq_self {schema : Schema} {value loaded : Value} :
    Becomes schema value loaded → (∀ n, value ≠ .number n) →
    (∀ entries, value ≠ .mapping entries) → loaded = value
  | .any _, _, _ | .null, _, _ | .text _, _, _ | .int _, _, _ | .bool _, _, _ => rfl
  | .float _, hnumber, _ => absurd rfl (hnumber _)
  | .union h, hnumber, hmapping => h.eq_self hnumber hmapping
  | .mapping _, _, hmapping | .record _ _, _, hmapping => absurd rfl (hmapping _)

theorem FirstBecomes.eq_self {variants : List Schema} {value loaded : Value} :
    FirstBecomes variants value loaded → (∀ n, value ≠ .number n) →
    (∀ entries, value ≠ .mapping entries) → loaded = value
  | .here _ h, hnumber, hmapping => h.eq_self hnumber hmapping
  | .later _ h, hnumber, hmapping => h.eq_self hnumber hmapping
end

theorem Becomes.eq_of_text (h : Becomes schema (.text name) loaded) : loaded = .text name :=
  h.eq_self nofun nofun

theorem loadEntries_judged {loadKey loadItem : String → Value → Except LoadError Value}
    (hkey : ∀ path name, Judged (Matches key (.text name)) (Becomes key (.text name))
      (loadKey path (.text name)))
    (hitem : ∀ path, ∀ entry ∈ items,
      Judged (Matches item entry.2) (Becomes item entry.2) (loadItem path entry.2))
    (path : String) (hnodup : ((done ++ items).map Prod.fst).Nodup) :
    Judged (∀ entry ∈ named items, Matches key entry.1 ∧ Matches item entry.2)
      (fun loaded => ∃ made, loaded = named (done ++ made) ∧
        EntriesBecome key item (named items) (named made))
      (loadEntries loadKey loadItem path (named done) (named items)) := by
  induction items generalizing done with
  | nil => exact .accepted ⟨[], by rw [List.append_nil], .nil key item⟩
  | cons entry rest ih =>
    obtain ⟨name, value⟩ := entry
    obtain ⟨hvalue, hrest⟩ :=
      List.forall_mem_cons.mp fun entry hentry path => hitem path entry hentry
    rw [named_cons, loadEntries]
    refine (hkey _ name).bind (fun h => (h _ List.mem_cons_self).1) fun loaded hloaded => ?_
    -- The key stays a text, and is new to what is done, so that its entry is put behind.
    obtain rfl := hloaded.eq_of_text
    refine (hvalue _).bind (fun h => (h _ List.mem_cons_self).2) fun made hmade => ?_
    rw [insertEntry_named_of_new (notMem_of_nodup_append hnodup)]
    refine (ih (fun path entry hentry => hrest entry hentry path) (by simpa using hnodup)).imp ?_ ?_
    · exact fun h entry hentry => h entry (.tail _ hentry)
    · rintro _ ⟨others, rfl, hothers⟩
      exact ⟨(name, made) :: others, by simp, .cons hloaded hmade hothers⟩

theorem checkKeys_fields_eq_ok_iff :
    checkKeys path ((fields.filter Field.settable).map Field.name) entries = .ok () ↔
      Known entries fields := by
  rw [checkKeys_eq_ok_iff]
  refine forall₂_congr fun entry _ => ?_
  simp only [List.mem_map, List.mem_filter, exists_exists_and_eq_and]
  simp only [and_assoc]

theorem checkKeys_judged (path : String) (fields : List Field) (items : List (String × Value)) :
    Judged (Known (named items) fields) (fun _ => Known (named items) fields)
      (checkKeys path ((fields.filter Field.settable).map Field.name) (named items)) := by
  obtain hok | ⟨reason, herror⟩ :=
    checkKeys_named_cases path ((fields.filter Field.settable).map Field.name) items
  · rw [hok]
    exact .accepted (checkKeys_fields_eq_ok_iff.mp hok)
  · rw [herror]
    refine .refused fun hknown => ?_
    cases herror.symm.trans (checkKeys_fields_eq_ok_iff.mpr hknown)

theorem Suits.of_cons {field : Field} (h : Suits entries (field :: fields)) : Suits entries fields :=
  ⟨(List.forall_mem_cons.mp h.required).2, (List.forall_mem_cons.mp h.given).2⟩

mutual
theorem load_judged : (schema : Schema) → (path : String) → (value : Value) → value.Plain →
    Judged (Matches schema value) (Becomes schema value) (load schema path value)
  | .any, _, value, _ => .accepted (.any value)
  | .null, _, value, _ => expect_judged (by rintro ⟨⟩; rfl) fun h => by
    cases value with
    | null => exact .null
    | _ => cases h
  | .text, _, value, _ => expect_judged (by rintro ⟨⟩; rfl) fun h => by
    cases value with
    | text s => exact .text s
    | _ => cases h
  | .int, _, value, _ => expect_judged (by rintro ⟨⟩; rfl) fun h => by
    cases value with
    | number n => cases n with
      | int n => exact .int n
      | float x => cases h
    | _ => cases h
  | .bool, _, value, _ => expect_judged (by rintro ⟨⟩; rfl) fun h => by
    cases value with
    | bool b => exact .bool b
    | _ => cases h
  | .float, path, _, hplain => loadFloat_judged hplain path
  | .union variants, path, value, hplain => by
    have hvariants := variants_judged variants path value hplain
    have hunion := loadUnion_judged (fun variants => FirstBecomes variants value)
      (fun _ rest _ => .here rest) (fun _ _ _ => .later) variants hvariants []
    exact hunion.imp (fun | .union hvariant hmatches => ⟨_, hvariant, hmatches⟩) fun _ => .union
  | .mapping key item, path, value, hplain => by
    cases hplain with
    | mapping items hnodup hitems =>
      have hnodup : (([] ++ items).map Prod.fst).Nodup := hnodup
      have hentries := loadEntries_judged (fun path name => load_judged key path _ (.text name))
        (fun path entry hentry => load_judged item path entry.2 (hitems entry hentry)) path hnodup
      refine Judged.map Value.mapping (hentries.imp ?_ fun _ => id) ?_
      · exact fun | .mapping hkeys hvalues => fun entry hentry =>
          ⟨hkeys entry hentry, hvalues entry hentry⟩
      · rintro _ ⟨made, rfl, hmade⟩
        exact .mapping hmade
    | _ => exact .refused nofun
  | .record name fields, path, value, hplain => by
    cases hplain with
    | mapping items hnodup hitems =>
      have hheld := loadFields_judged fields path items hnodup hitems
      exact (checkKeys_judged path fields items).bind (fun | .record hknown _ _ => hknown)
        fun _ hknown => hheld.bind (fun | .record _ hrequired hgiven => ⟨hrequired, hgiven⟩)
          fun held hheld => .accepted (.record hknown hheld)
    | _ => exact .refused nofun
  | .unsupported _, _, _, _ => .refused nofun

theorem variants_judged : (variants : List Schema) → (path : String) → (value : Value) →
    value.Plain → ∀ variant ∈ variants,
      Judged (Matches variant value) (Becomes variant value) (load variant path value)
  | [], _, _, _ => nofun
  | variant :: rest, path, value, hplain => by
    rintro _ (_ | ⟨_, hother⟩)
    · exact load_judged variant path value hplain
    · exact variants_judged rest path value hplain _ hother

theorem loadFields_judged : (fields : List Field) → (path : String) →
    (items : List (String × Value)) → (items.map Prod.fst).Nodup → (∀ item ∈ items, item.2.Plain) →
    Judged (Suits (named items) fields) (FieldsBecome (named items) fields)
      (loadFields fields path (named items))
  | [], _, items, _, _ => .accepted (.nil _)
  | .mk name schema default settable :: rest, path, items, hnodup, hitems => by
    have hrest := loadFields_judged rest path items hnodup hitems
    simp only [loadFields]
    cases settable with
    | false =>
      cases default with
      | none => exact hrest.bind .of_cons fun others hothers => .accepted (.unset hothers)
      | some default =>
        exact hrest.bind .of_cons fun others hothers => .accepted (.default nofun hothers)
    | true =>
      rcases hgiven : lookup (named items) name with _ | value
      · have hnone : ∀ value, (.text name, value) ∉ named items := fun value hmem =>
          lookup_named_eq_none_iff.mp hgiven value (mem_named.mp hmem)
        cases default with
        | none =>
          refine .refused fun h => ?_
          obtain ⟨value, hvalue⟩ := h.required _ List.mem_cons_self rfl rfl
          exact hnone value hvalue
        | some default =>
          exact hrest.bind .of_cons fun others hothers =>
            .accepted (.default (fun _ => hnone) hothers)
      · have hvalue := (lookup_named_eq_some_iff hnodup).mp hgiven
        have hmade := load_judged schema s!"{path}.{name}" value (hitems _ hvalue)
        have hheld : Judged (Matches schema value)
            (fun held => ∃ loaded, held = some loaded ∧ Becomes schema value loaded)
            ((load schema s!"{path}.{name}" value).map some) :=
          hmade.map some fun loaded h => ⟨loaded, rfl, h⟩
        refine hheld.bind (fun h => ?_) ?_
        · exact h.given _ List.mem_cons_self value rfl (mem_named.mpr hvalue)
        · rintro _ ⟨loaded, rfl, h⟩
          exact hrest.bind .of_cons fun others hothers =>
            .accepted (.given (mem_named.mpr hvalue) h hothers)
end

mutual
/-- The value is of the kind that the schema asks for. If that is enough (`lax`), a field may hold its
default whatever it is. -/
inductive Inhabits (lax : Prop) : Schema → Value → Prop where
  | any (value : Value) : Inhabits lax .any value
  | null : Inhabits lax .null .null
  | text (s : String) : Inhabits lax .text (.text s)
  | int (n : Int) : Inhabits lax .int (.int n)
  | float (x : Float) : Inhabits lax .float (.float x)
  | bool (b : Bool) : Inhabits lax .bool (.bool b)
  | union {variants : List Schema} {variant : Schema} {value : Value} :
    variant ∈ variants → Inhabits lax variant value → Inhabits lax (.union variants) value
  | mapping {key item : Schema} {entries : List (Value × Value)} :
    KeysApart entries → (∀ entry ∈ entries, Inhabits lax key entry.1) →
    (∀ entry ∈ entries, Inhabits lax item entry.2) →
    Inhabits lax (.mapping key item) (.mapping entries)
  | record {name : String} {fields : List Field} {held : List (String × Value)} :
    FieldsInhabit lax fields held → Inhabits lax (.record name fields) (.record name held)

inductive FieldsInhabit (lax : Prop) : List Field → List (String × Value) → Prop where
  | nil : FieldsInhabit lax [] []
  | value {name : String} {schema : Schema} {default : Option Value} {settable : Bool}
    {rest : List Field} {value : Value} {others : List (String × Value)} :
    Inhabits lax schema value → FieldsInhabit lax rest others →
    FieldsInhabit lax (.mk name schema default settable :: rest) ((name, value) :: others)
  | default {name : String} {schema : Schema} {default : Value} {settable : Bool}
    {rest : List Field} {others : List (String × Value)} :
    lax → FieldsInhabit lax rest others →
    FieldsInhabit lax (.mk name schema (some default) settable :: rest) ((name, default) :: others)
  | unset {name : String} {schema : Schema} {rest : List Field} {others : List (String × Value)} :
    FieldsInhabit lax rest others →
    FieldsInhabit lax (.mk name schema none false :: rest) others
end

inductive DefaultsFit : Schema → Prop where
  | any : DefaultsFit .any
  | null : DefaultsFit .null
  | text : DefaultsFit .text
  | int : DefaultsFit .int
  | float : DefaultsFit .float
  | bool : DefaultsFit .bool
  | union {variants : List Schema} :
    (∀ variant ∈ variants, DefaultsFit variant) → DefaultsFit (.union variants)
  | mapping {key item : Schema} :
    DefaultsFit key → DefaultsFit item → DefaultsFit (.mapping key item)
  | record {name : String} {fields : List Field} :
    (∀ field ∈ fields, DefaultsFit field.schema) →
    (∀ field ∈ fields, ∀ default, field.default? = some default →
      Inhabits False field.schema default) →
    DefaultsFit (.record name fields)

theorem EntriesBecome.map_fst {entries made : List (Value × Value)}
    (h : EntriesBecome key item entries made)
    (htexts : ∀ entry ∈ entries, ∃ name, entry.1 = .text name) :
    made.map Prod.fst = entries.map Prod.fst := by
  induction entries generalizing made with
  | nil =>
    cases h
    rfl
  | cons entry rest ih =>
    cases h with
    | cons hkey hitem hrest =>
      obtain ⟨⟨name, rfl⟩, hothers⟩ := List.forall_mem_cons.mp htexts
      rw [List.map_cons, List.map_cons, ih hrest hothers, hkey.eq_of_text]

namespace DefaultsFit

theorem union_head (h : DefaultsFit (.union (variant :: rest))) : DefaultsFit variant := by
  cases h with
  | union h => exact h _ List.mem_cons_self

theorem union_tail (h : DefaultsFit (.union (variant :: rest))) : DefaultsFit (.union rest) := by
  cases h with
  | union h => exact .union fun other hother => h other (List.mem_cons_of_mem _ hother)

theorem mapping_key (h : DefaultsFit (.mapping key item)) : DefaultsFit key := by
  cases h with
  | mapping h _ => exact h

theorem mapping_item (h : DefaultsFit (.mapping key item)) : DefaultsFit item := by
  cases h with
  | mapping _ h => exact h

variable {field : Field}

theorem record_head (h : DefaultsFit (.record name (field :: fields))) :
    DefaultsFit field.schema ∧
      ∀ default, field.default? = some default → Inhabits False field.schema default := by
  cases h with
  | record hschemas hdefaults =>
    exact ⟨hschemas _ List.mem_cons_self, hdefaults _ List.mem_cons_self⟩

theorem record_tail (h : DefaultsFit (.record name (field :: fields))) :
    DefaultsFit (.record name fields) := by
  cases h with
  | record hschemas hdefaults =>
    exact .record (List.forall_mem_cons.mp hschemas).2 (List.forall_mem_cons.mp hdefaults).2

end DefaultsFit

mutual
theorem Becomes.inhabits {lax : Prop} {schema : Schema} {value loaded : Value} :
    Becomes schema value loaded → value.Plain → (¬lax → DefaultsFit schema) →
    Inhabits lax schema loaded
  | .any value, _, _ => .any value
  | .null, _, _ => .null
  | .text s, _, _ => .text s
  | .int n, _, _ => .int n
  | .float _, _, _ => .float _
  | .bool b, _, _ => .bool b
  | .union h, hplain, hfit =>
    have ⟨_, hvariant, hinhabits⟩ := h.exists_inhabits hplain hfit
    .union hvariant hinhabits
  | .mapping h, hplain, hfit => by
    obtain ⟨hkeys, hitems⟩ := h.inhabits hplain.of_entry hfit
    refine .mapping ?_ hkeys hitems
    obtain ⟨items, rfl, hnodup, -⟩ := hplain.exists_named
    rw [KeysApart, h.map_fst fun entry hentry => ?_]
    · exact keysApart_named_iff.mpr hnodup
    · obtain ⟨name, -, hname⟩ := exists_of_mem_named hentry
      exact ⟨name, hname⟩
  | .record _ h, hplain, hfit => .record (h.inhabits _ hplain hfit)

theorem FirstBecomes.exists_inhabits {lax : Prop} {variants : List Schema} {value loaded : Value} :
    FirstBecomes variants value loaded → value.Plain → (¬lax → DefaultsFit (.union variants)) →
    ∃ variant ∈ variants, Inhabits lax variant loaded
  | .here _ h, hplain, hfit =>
    ⟨_, .head _, h.inhabits hplain fun hstrict => (hfit hstrict).union_head⟩
  | .later _ h, hplain, hfit =>
    have ⟨variant, hvariant, hinhabits⟩ :=
      h.exists_inhabits hplain fun hstrict => (hfit hstrict).union_tail
    ⟨variant, .tail _ hvariant, hinhabits⟩

theorem EntriesBecome.inhabits {lax : Prop} {key item : Schema}
    {entries made : List (Value × Value)} :
    EntriesBecome key item entries made → (∀ entry ∈ entries, entry.1.Plain ∧ entry.2.Plain) →
    (¬lax → DefaultsFit (.mapping key item)) →
    (∀ entry ∈ made, Inhabits lax key entry.1) ∧ ∀ entry ∈ made, Inhabits lax item entry.2
  | .nil .., _, _ => ⟨nofun, nofun⟩
  | .cons hkey hitem h, hplain, hfit => by
    obtain ⟨⟨hkeyPlain, hitemPlain⟩, hrest⟩ := List.forall_mem_cons.mp hplain
    obtain ⟨hkeys, hitems⟩ := h.inhabits hrest hfit
    have hkey := hkey.inhabits hkeyPlain fun hstrict => (hfit hstrict).mapping_key
    have hitem := hitem.inhabits hitemPlain fun hstrict => (hfit hstrict).mapping_item
    exact ⟨List.forall_mem_cons.mpr ⟨hkey, hkeys⟩, List.forall_mem_cons.mpr ⟨hitem, hitems⟩⟩

theorem FieldsBecome.inhabits {lax : Prop} {entries : List (Value × Value)} {fields : List Field}
    {held : List (String × Value)} :
    FieldsBecome entries fields held → (name : String) → (Value.mapping entries).Plain →
    (¬lax → DefaultsFit (.record name fields)) → FieldsInhabit lax fields held
  | .nil _, _, _, _ => .nil
  | .given hvalue h hrest, name, hplain, hfit =>
    .value (h.inhabits (hplain.of_entry _ hvalue).2 fun hstrict => (hfit hstrict).record_head.1)
      (hrest.inhabits name hplain fun hstrict => (hfit hstrict).record_tail)
  | .default _ hrest, name, hplain, hfit => by
    have hothers := hrest.inhabits name hplain fun hstrict => (hfit hstrict).record_tail
    by_cases hlax : lax
    · exact .default hlax hothers
    -- Where a default does not do as it is, the schema has one of the right kind.
    · have hdefault := (hfit hlax).record_head.2 _ rfl
      obtain rfl : lax = False := eq_false hlax
      exact .value hdefault hothers
  | .unset hrest, name, hplain, hfit =>
    .unset (hrest.inhabits name hplain fun hstrict => (hfit hstrict).record_tail)
end

/-- A plain value is loaded exactly if it matches, and then it becomes what the rules make of it, which
is of the kind that the schema asks for. There all fields are of their kinds but for those that hold
defaults, and these are so as well if all defaults in the schema are. What does not match is told as no
fit. No depth is too much, since the interpreter's stack is not modelled. -/
theorem load_sound_and_complete (schema : Schema) (path : String) {value : Value}
    (hplain : value.Plain) :
    (∀ loaded, load schema path value = .ok loaded ↔ Becomes schema value loaded) ∧
    ((∃ loaded, load schema path value = .ok loaded) ↔ Matches schema value) ∧
    (∀ loaded, load schema path value = .ok loaded →
      Inhabits True schema loaded ∧ (DefaultsFit schema → Inhabits False schema loaded)) ∧
    (¬Matches schema value →
      ∃ place reason, load schema path value = .error (.misfit place reason)) := by
  have hjudged := load_judged schema path value hplain
  rcases hload : load schema path value with e | made <;> rw [hload] at hjudged
  · cases hjudged with
    | refused hno =>
      exact ⟨fun loaded => ⟨nofun, fun h => absurd (h.matches hplain) hno⟩,
        ⟨nofun, fun h => absurd h hno⟩, nofun, fun _ => ⟨_, _, rfl⟩⟩
  · cases hjudged with
    | accepted hmade =>
      have hmatches := hmade.matches hplain
      refine ⟨fun loaded => ⟨?_, fun h => congrArg _ (hmade.unique h hplain)⟩,
        ⟨fun _ => hmatches, fun _ => ⟨made, rfl⟩⟩, ?_, fun hno => absurd hmatches hno⟩
      · rintro ⟨⟩
        exact hmade
      · rintro _ ⟨⟩
        exact ⟨hmade.inhabits hplain fun hstrict => absurd trivial hstrict,
          fun hfit => hmade.inhabits hplain fun _ => hfit⟩

def pointSchema : Schema :=
  .record "Point" [.mk "x" .float none true, .mk "label" (.union [.text, .null]) (some .null) true]

/-- A mapping is no integer, and becomes a record that has no label. -/
theorem point_loaded :
    let schema := Schema.union [.int, pointSchema]
    let value := Value.mapping (named [("x", .float 0.5)])
    let point := Value.record "Point" [("x", .float 0.5), ("label", .null)]
    value.Plain ∧ load schema "$" value = .ok point ∧ DefaultsFit schema ∧
      Inhabits False schema point := by
  intro schema value point
  have hplain : value.Plain :=
    .mapping _ (by decide) (by simpa using .number _ (Option.some_ne_none _))
  have hheld : FieldsBecome (named [("x", .float 0.5)])
      [.mk "x" .float none true, .mk "label" (.union [.text, .null]) (some .null) true]
      [("x", .float 0.5), ("label", .null)] :=
    .given (List.mem_singleton.mpr rfl) (.float rfl) (.default (by simp [named]) (.nil _))
  have hinteger : ¬Matches .int (.mapping (named [("x", .float 0.5)])) := by
    rintro ⟨⟩
  have hknown : Known (named [("x", .float 0.5)])
      [.mk "x" .float none true, .mk "label" (.union [.text, .null]) (some .null) true] := by
    simp [Known, named, Field.name, Field.settable]
  have hpoint : Becomes schema value point :=
    .union (.later hinteger (.here _ (.record hknown hheld)))
  have hfit : DefaultsFit schema := by
    refine .union (List.forall_mem_cons.mpr ⟨.int, List.forall_mem_singleton.mpr (.record ?_ ?_)⟩)
    · simpa [Field.schema] using ⟨.float, .union (by simpa using ⟨.text, .null⟩)⟩
    · simpa [Field.schema, Field.default?] using .union (by simp) .null
  obtain ⟨hbecomes, -, hinhabits, -⟩ := load_sound_and_complete schema "$" hplain
  have hload := (hbecomes point).mpr hpoint
  exact ⟨hplain, hload, hfit, (hinhabits point hload).2 hfit⟩

end TagTemplate.Config
