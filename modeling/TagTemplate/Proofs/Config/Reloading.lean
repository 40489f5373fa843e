import TagTemplate.Proofs.Config.Loading

/-! Loading what was loaded changes nothing. In a schema without records only integers change, and only
into numbers with a fraction; no schema accepts the new value unless it accepts the old one, and so a
union comes to the same variant again. -/
namespace TagTemplate.Value
open Config

structure Regular (value : Value) : Prop where
  near : ∀ n, IsPart (.number n) value → n.toFloat? ≠ none
  apart : ∀ part entries, IsPart part value → part.entries? = some entries → KeysApart entries

namespace Regular

variable {value part : Value}

theorem of_part (h : value.Regular) (hpart : IsPart part value) : part.Regular where
  near n hinner := h.near n (hinner.trans hpart)
  apart inner entries hinner := h.apart inner entries (hinner.trans hpart)

theorem of_children (hnear : ∀ n, value = .number n → n.toFloat? ≠ none)
    (hapart : ∀ entries, value.entries? = some entries → KeysApart entries)
    (hchildren : ∀ child ∈ value.children, child.Regular) : value.Regular where
  near n hpart := by
    cases hpart with
    | self => exact hnear n rfl
    | inside hchild hinner => exact (hchildren _ hchild).near n hinner
  apart part entries hpart := by
    cases hpart with
    | self => exact hapart entries
    | inside hchild hinner => exact (hchildren _ hchild).apart part entries hinner

theorem float (x : Float) : (Value.float x).Regular := by
  apply of_children
  · rintro _ ⟨⟩
    exact Option.some_ne_none x
  · nofun
  · nofun

theorem text (s : String) : (Value.text s).Regular :=
  .of_children nofun nofun nofun

end Regular
end TagTemplate.Value

namespace TagTemplate.Config

inductive Recordless : Schema → Prop where
  | any : Recordless .any
  | null : Recordless .null
  | text : Recordless .text
  | int : Recordless .int
  | float : Recordless .float
  | bool : Recordless .bool
  | union {variants : List Schema} :
    (∀ variant ∈ variants, Recordless variant) → Recordless (.union variants)
  | mapping {item : Schema} : Recordless item → Recordless (.mapping .text item)

def Accepts (schema : Schema) (value loaded : Value) : Prop :=
  ∀ path, load schema path value = .ok loaded

def Fits (schema : Schema) (value : Value) : Prop :=
  ∃ loaded, Accepts schema value loaded

def Decided (schema : Schema) (value : Value) : Prop :=
  ∀ path, Judged (Fits schema value) (Accepts schema value) (load schema path value)

structure Entry where
  name : String
  given : Value
  made : Value

def Entry.allGiven (entries : List Entry) : List (Value × Value) :=
  entries.map fun entry => (.text entry.name, entry.given)

def Entry.allMade (entries : List Entry) : List (Value × Value) :=
  entries.map fun entry => (.text entry.name, entry.made)

/-- In the second value some integers of the first one are numbers with a fraction, and its mappings
are made anew, entry by entry. -/
inductive Widened : Value → Value → Prop where
  | self (value : Value) : Widened value value
  | number {n : Number} {x : Float} : n.toFloat? = some x → Widened (.number n) (.float x)
  | mapping {value : Value} {entries : List Entry} :
    value.entries? = some (Entry.allGiven entries) →
    (∀ entry ∈ entries, Widened entry.given entry.made) →
    Widened value (.mapping (Entry.allMade entries))

variable {schema item variant : Schema} {variants rest : List Schema}
  {value loaded loaded' : Value} {given done : List (Value × Value)} {entries entries' : List Entry}
  {path what : String} {fits : Prop} {makes : Value → Prop}

theorem Entry.mem_allGiven {entry : Entry} (h : entry ∈ entries) :
    (.text entry.name, entry.given) ∈ Entry.allGiven entries :=
  List.mem_map_of_mem h

theorem Entry.mem_allMade {entry : Entry} (h : entry ∈ entries) :
    (.text entry.name, entry.made) ∈ Entry.allMade entries :=
  List.mem_map_of_mem h

theorem Entry.keysApart_allMade (h : KeysApart (Entry.allGiven entries)) :
    KeysApart (Entry.allMade entries) := by
  unfold KeysApart Entry.allGiven at h
  unfold KeysApart Entry.allMade
  rw [List.map_map] at h ⊢
  exact h

def Entry.again (entry : Entry) : Entry where
  name := entry.name
  given := entry.made
  made := entry.made

theorem Entry.allGiven_again (entries : List Entry) :
    Entry.allGiven (entries.map Entry.again) = Entry.allMade entries := by
  unfold Entry.allGiven Entry.allMade
  rw [List.map_map]
  rfl

theorem Entry.allMade_again (entries : List Entry) :
    Entry.allMade (entries.map Entry.again) = Entry.allMade entries := by
  unfold Entry.allMade
  rw [List.map_map]
  rfl

theorem Accepts.unique (h : Accepts schema value loaded) (hother : Accepts schema value loaded') :
    loaded = loaded' :=
  Except.ok.inj ((h "").symm.trans (hother ""))

/-- What is said of every result of loading, if it is said of one result only, is what the schema
accepts. -/
structure Settled (schema : Schema) (value : Value) (fits : Prop) (makes : Value → Prop) : Prop where
  judged : ∀ path, Judged fits makes (load schema path value)
  fits_of_makes : ∀ loaded, makes loaded → fits
  unique : ∀ loaded loaded', makes loaded → makes loaded' → loaded = loaded'

namespace Settled

theorem accepts_iff (h : Settled schema value fits makes) :
    Accepts schema value loaded ↔ makes loaded := by
  constructor
  · intro haccepts
    have hjudged := h.judged ""
    rw [haccepts ""] at hjudged
    cases hjudged with
    | accepted hmakes => exact hmakes
  · intro hmakes path
    have hjudged := h.judged path
    rcases hload : load schema path value with e | made <;> rw [hload] at hjudged
    · cases hjudged with
      | refused hno => exact absurd (h.fits_of_makes _ hmakes) hno
    · cases hjudged with
      | accepted hmade => rw [h.unique _ _ hmade hmakes]

theorem fits_iff (h : Settled schema value fits makes) : Fits schema value ↔ fits := by
  constructor
  · rintro ⟨loaded, haccepts⟩
    exact h.fits_of_makes loaded (h.accepts_iff.mp haccepts)
  · intro hfits
    have hjudged := h.judged ""
    rcases hload : load schema "" value with e | made <;> rw [hload] at hjudged
    · cases hjudged with
      | refused hno => exact absurd hfits hno
    · cases hjudged with
      | accepted hmade => exact ⟨made, h.accepts_iff.mpr hmade⟩

theorem decided (h : Settled schema value fits makes) : Decided schema value := by
  intro path
  exact (h.judged path).imp h.fits_iff.mp fun _ => h.accepts_iff.mpr

end Settled

theorem decided_of_refused
    (h : ∀ path, ∃ reason, load schema path value = .error (.misfit path reason)) :
    Decided schema value := by
  intro path
  obtain ⟨reason, hload⟩ := h path
  rw [hload]
  refine .refused ?_
  rintro ⟨loaded, haccepts⟩
  cases hload.symm.trans (haccepts path)

theorem decided_of_expect {fits : Bool}
    (h : ∀ path, load schema path value = expect path what value fits) :
    Decided schema value := by
  cases fits with
  | true =>
    intro path
    rw [h path]
    exact .accepted h
  | false => exact decided_of_refused fun path => ⟨_, h path⟩

theorem decided_float (h : value.Regular) : Decided .float value := by
  cases value with
  | number n =>
    obtain ⟨x, hx⟩ := Option.ne_none_iff_exists'.mp (h.near n .self)
    have haccepts : Accepts .float (.number n) (.float x) := fun path => by
      simp only [load, loadFloat, hx]
    intro path
    rw [haccepts path]
    exact .accepted haccepts
  | _ => exact decided_of_refused fun path => ⟨_, rfl⟩

inductive FirstAccepts (value : Value) : List Schema → Value → Prop where
  | here {variant : Schema} (rest : List Schema) {loaded : Value} :
    Accepts variant value loaded → FirstAccepts value (variant :: rest) loaded
  | later {variant : Schema} {rest : List Schema} {loaded : Value} :
    ¬Fits variant value → FirstAccepts value rest loaded →
    FirstAccepts value (variant :: rest) loaded

namespace FirstAccepts

theorem exists_accepts (h : FirstAccepts value variants loaded) :
    ∃ variant ∈ variants, Accepts variant value loaded := by
  induction h with
  | here rest haccepts => exact ⟨_, List.mem_cons_self, haccepts⟩
  | later _ _ ih =>
    obtain ⟨variant, hvariant, haccepts⟩ := ih
    exact ⟨variant, List.mem_cons_of_mem _ hvariant, haccepts⟩

theorem unique (h : FirstAccepts value variants loaded) (h' : FirstAccepts value variants loaded') :
    loaded = loaded' := by
  induction h with
  | here rest haccepts =>
    cases h' with
    | here _ haccepts' => exact haccepts.unique haccepts'
    | later hno _ => exact absurd ⟨_, haccepts⟩ hno
  | later hno _ ih =>
    cases h' with
    | here _ haccepts' => exact absurd ⟨_, haccepts'⟩ hno
    | later _ hfirst' => exact ih hfirst'

end FirstAccepts

theorem union_settled (h : ∀ variant ∈ variants, Decided variant value) :
    Settled (.union variants) value (∃ variant ∈ variants, Fits variant value)
      (FirstAccepts value variants) where
  judged path := by
    rw [load_union]
    exact loadUnion_judged (FirstAccepts value) (fun _ rest _ => .here rest) (fun _ _ _ => .later)
      variants (fun variant hvariant => h variant hvariant path) []
  fits_of_makes loaded hfirst := by
    obtain ⟨variant, hvariant, haccepts⟩ := hfirst.exists_accepts
    exact ⟨variant, hvariant, loaded, haccepts⟩
  unique _ _ h h' := h.unique h'

theorem load_text_cases (key : Value) :
    (∃ name, key = .text name) ∨
      ∀ path, load .text path key = .error (.misfit path (.expected "str" key.kind)) := by
  cases key with
  | text name => exact .inl ⟨name, rfl⟩
  | _ => exact .inr fun path => rfl

theorem loadEntries_decided (hitems : ∀ entry ∈ given, Decided item entry.2)
    (hapart : KeysApart (done ++ given)) (path : String) :
    Judged (∀ entry ∈ given, (∃ name, entry.1 = .text name) ∧ Fits item entry.2)
      (fun loaded => ∃ entries, given = Entry.allGiven entries ∧
        (∀ entry ∈ entries, Accepts item entry.given entry.made) ∧
        loaded = done ++ Entry.allMade entries)
      (loadEntries (load .text) (load item) path done given) := by
  induction given generalizing done with
  | nil => exact .accepted ⟨[], rfl, nofun, (List.append_nil done).symm⟩
  | cons entry rest ih =>
    obtain ⟨key, value⟩ := entry
    obtain ⟨hvalue, hrest⟩ := List.forall_mem_cons.mp hitems
    rw [loadEntries]
    obtain ⟨name, rfl⟩ | hno := load_text_cases key
    · have hnew : ∀ entry ∈ done, entry.1.sameKey (.text name) = false := by
        intro entry hentry
        rw [KeysApart, List.map_append, List.pairwise_append] at hapart
        exact hapart.2.2 _ (List.mem_map_of_mem hentry) _ List.mem_cons_self
      refine (hvalue _).bind (fun h => (h _ List.mem_cons_self).2) fun made hmade => ?_
      rw [insertEntry_of_new hnew]
      refine (ih hrest ?_).imp (fun h entry hentry => h entry (.tail _ hentry)) ?_
      · simpa [KeysApart] using hapart
      · rintro _ ⟨others, rfl, hothers, rfl⟩
        refine ⟨⟨name, value, made⟩ :: others, rfl, List.forall_mem_cons.mpr ⟨hmade, hothers⟩, ?_⟩
        rw [List.append_assoc]
        rfl
    · rw [hno]
      refine .refused fun h => ?_
      obtain ⟨⟨name, rfl⟩, -⟩ := h _ List.mem_cons_self
      cases hno ""

theorem allMade_unique (h : ∀ entry ∈ entries, Accepts item entry.given entry.made)
    (h' : ∀ entry ∈ entries', Accepts item entry.given entry.made)
    (hgiven : Entry.allGiven entries = Entry.allGiven entries') :
    Entry.allMade entries = Entry.allMade entries' := by
  induction entries generalizing entries' with
  | nil =>
    obtain rfl := List.map_eq_nil_iff.mp hgiven.symm
    rfl
  | cons entry rest ih =>
    obtain ⟨entry', rest', rfl, hentry, hrest⟩ := List.map_eq_cons_iff.mp hgiven.symm
    obtain ⟨haccepts, hothers⟩ := List.forall_mem_cons.mp h
    obtain ⟨haccepts', hothers'⟩ := List.forall_mem_cons.mp h'
    simp only [Prod.mk.injEq, Value.text.injEq] at hentry
    obtain ⟨hname, hsame⟩ := hentry
    rw [hsame] at haccepts'
    unfold Entry.allMade at ih ⊢
    rw [List.map_cons, List.map_cons, ih hothers hothers' hrest.symm, hname,
      haccepts.unique haccepts']

theorem mapping_settled (hgiven : value.entries? = some given) (hapart : KeysApart given)
    (hitems : ∀ entry ∈ given, Decided item entry.2) :
    Settled (.mapping .text item) value
      (∀ entry ∈ given, (∃ name, entry.1 = .text name) ∧ Fits item entry.2)
      (fun loaded => ∃ entries, given = Entry.allGiven entries ∧
        (∀ entry ∈ entries, Accepts item entry.given entry.made) ∧
        loaded = .mapping (Entry.allMade entries)) where
  judged path := by
    rw [load_mapping hgiven]
    have hnew : KeysApart ([] ++ given) := hapart
    refine (loadEntries_decided hitems hnew path).map Value.mapping ?_
    rintro _ ⟨entries, hentries, haccepts, rfl⟩
    exact ⟨entries, hentries, haccepts, rfl⟩
  fits_of_makes loaded := by
    rintro ⟨entries, rfl, haccepts, -⟩ _ hentry
    obtain ⟨entry, hmem, rfl⟩ := List.mem_map.mp hentry
    exact ⟨⟨_, rfl⟩, _, haccepts entry hmem⟩
  unique loaded loaded' := by
    rintro ⟨entries, rfl, haccepts, rfl⟩ ⟨entries', hentries, haccepts', rfl⟩
    rw [allMade_unique haccepts haccepts' hentries]

namespace Recordless

theorem decided (hschema : Recordless schema) (hvalue : value.Regular) : Decided schema value := by
  induction hschema generalizing value with
  | any => exact fun path => .accepted fun path => rfl
  | null => exact decided_of_expect fun path => rfl
  | text => exact decided_of_expect fun path => rfl
  | int => exact decided_of_expect fun path => rfl
  | float => exact decided_float hvalue
  | bool => exact decided_of_expect fun path => rfl
  | union _ ih => exact (union_settled fun variant hvariant => ih variant hvariant hvalue).decided
  | mapping _ ih =>
    rcases hgiven : value.entries? with _ | given
    · refine decided_of_refused fun path => ?_
      simp only [load, hgiven]
      exact ⟨_, rfl⟩
    · have hitems : ∀ entry ∈ given, Decided _ entry.2 := fun entry hentry =>
        ih (hvalue.of_part (Value.isPart_item hgiven hentry))
      exact (mapping_settled hgiven (hvalue.apart _ _ .self hgiven) hitems).decided

theorem variants_settled (hvariants : ∀ variant ∈ variants, Recordless variant)
    (hvalue : value.Regular) :
    Settled (.union variants) value (∃ variant ∈ variants, Fits variant value)
      (FirstAccepts value variants) :=
  union_settled fun variant hvariant => (hvariants variant hvariant).decided hvalue

theorem items_settled (hitem : Recordless item) (hvalue : value.Regular)
    (hgiven : value.entries? = some given) :
    Settled (.mapping .text item) value
      (∀ entry ∈ given, (∃ name, entry.1 = .text name) ∧ Fits item entry.2)
      (fun loaded => ∃ entries, given = Entry.allGiven entries ∧
        (∀ entry ∈ entries, Accepts item entry.given entry.made) ∧
        loaded = .mapping (Entry.allMade entries)) :=
  mapping_settled hgiven (hvalue.apart _ _ .self hgiven) fun _ hentry =>
    hitem.decided (hvalue.of_part (Value.isPart_item hgiven hentry))

end Recordless

theorem Accepts.exists_entries {key : Schema} (h : Accepts (.mapping key item) value loaded) :
    ∃ given, value.entries? = some given := by
  rcases hgiven : value.entries? with _ | given
  · have hload := h ""
    simp only [load, hgiven] at hload
    cases hload
  · exact ⟨given, rfl⟩

theorem Accepts.exists_float (h : Accepts .float value loaded) :
    ∃ (n : Number) (x : Float), value = .number n ∧ n.toFloat? = some x ∧ loaded = .float x := by
  have hload := h ""
  simp only [load, loadFloat] at hload
  split at hload
  · next n =>
    split at hload
    · next x hx => exact ⟨n, x, rfl, hx, (Except.ok.inj hload).symm⟩
    · cases hload
  · cases hload

theorem Accepts.widened (hschema : Recordless schema) (hvalue : value.Regular)
    (h : Accepts schema value loaded) : Widened value loaded := by
  induction hschema generalizing value loaded with
  | any =>
    obtain rfl := Except.ok.inj (h "")
    exact .self _
  | null | text | int | bool =>
    obtain rfl := eq_of_expect (h "")
    exact .self _
  | float =>
    obtain ⟨n, x, rfl, hx, rfl⟩ := h.exists_float
    exact .number hx
  | union hvariants ih =>
    have hfirst := (Recordless.variants_settled hvariants hvalue).accepts_iff.mp h
    obtain ⟨variant, hvariant, haccepts⟩ := hfirst.exists_accepts
    exact ih variant hvariant hvalue haccepts
  | mapping hitem ih =>
    obtain ⟨given, hgiven⟩ := h.exists_entries
    obtain ⟨entries, rfl, haccepts, rfl⟩ := (hitem.items_settled hvalue hgiven).accepts_iff.mp h
    refine .mapping hgiven fun entry hentry => ?_
    exact ih (hvalue.of_part (Value.isPart_item hgiven (Entry.mem_allGiven hentry)))
      (haccepts entry hentry)

theorem Widened.regular (h : Widened value loaded) (hvalue : value.Regular) : loaded.Regular := by
  induction h with
  | self => exact hvalue
  | number => exact .float _
  | @mapping value entries hgiven _ ih =>
    refine .of_children nofun ?_ ?_
    · rintro _ ⟨⟩
      exact Entry.keysApart_allMade (hvalue.apart _ _ .self hgiven)
    · intro child hchild
      rw [Value.children, List.mem_append, Entry.allMade, List.map_map, List.map_map, List.mem_map,
        List.mem_map] at hchild
      rcases hchild with ⟨entry, -, rfl⟩ | ⟨entry, hentry, rfl⟩
      · exact .text entry.name
      · exact ih entry hentry
          (hvalue.of_part (Value.isPart_item hgiven (Entry.mem_allGiven hentry)))

/-- No schema accepts a widened value if it does not accept the value itself. -/
theorem Fits.of_widened (hschema : Recordless schema) (hvalue : value.Regular)
    (hwidened : Widened value loaded) (h : Fits schema loaded) : Fits schema value := by
  induction hschema generalizing value loaded with
  | any => exact ⟨value, fun path => rfl⟩
  | null | text | int | bool =>
    -- Numbers with a fraction and mappings are none of these.
    cases hwidened with
    | self => exact h
    | _ =>
      obtain ⟨made, hmade⟩ := h
      cases hmade ""
  | float =>
    cases hwidened with
    | self => exact h
    | @number n x hx => exact ⟨.float x, fun path => by simp only [load, loadFloat, hx]⟩
    | mapping =>
      obtain ⟨made, hmade⟩ := h
      cases hmade ""
  | union hvariants ih =>
    have hloaded := hwidened.regular hvalue
    obtain ⟨variant, hvariant, hfits⟩ :=
      (Recordless.variants_settled hvariants hloaded).fits_iff.mp h
    exact (Recordless.variants_settled hvariants hvalue).fits_iff.mpr
      ⟨variant, hvariant, ih variant hvariant hvalue hwidened hfits⟩
  | mapping hitem ih =>
    have hloaded := hwidened.regular hvalue
    cases hwidened with
    | self => exact h
    | number =>
      obtain ⟨made, hmade⟩ := h
      cases hmade ""
    | @mapping _ entries hgiven hentries =>
      have hfits := (hitem.items_settled hloaded rfl).fits_iff.mp h
      refine (hitem.items_settled hvalue hgiven).fits_iff.mpr fun given hmem => ?_
      obtain ⟨entry, hentry, rfl⟩ := List.mem_map.mp hmem
      refine ⟨⟨entry.name, rfl⟩, ?_⟩
      exact ih (hvalue.of_part (Value.isPart_item hgiven hmem)) (hentries entry hentry)
        (hfits _ (Entry.mem_allMade hentry)).2

theorem FirstAccepts.again (hvariants : ∀ variant ∈ variants, Recordless variant)
    (hvalue : value.Regular) (hwidened : Widened value loaded)
    (hagain : ∀ variant ∈ variants, Accepts variant value loaded → Accepts variant loaded loaded)
    (h : FirstAccepts value variants loaded) : FirstAccepts loaded variants loaded := by
  induction h with
  | here rest haccepts => exact .here rest (hagain _ List.mem_cons_self haccepts)
  | @later variant rest loaded hno _ ih =>
    obtain ⟨hvariant, hrest⟩ := List.forall_mem_cons.mp hvariants
    refine .later (mt (Fits.of_widened hvariant hvalue hwidened) hno) (ih hrest hwidened ?_)
    exact fun other hother => hagain other (List.mem_cons_of_mem _ hother)

theorem Accepts.again (hschema : Recordless schema) (hvalue : value.Regular)
    (h : Accepts schema value loaded) : Accepts schema loaded loaded := by
  induction hschema generalizing value loaded with
  | any => exact fun path => rfl
  | null | text | int | bool =>
    obtain rfl := eq_of_expect (h "")
    exact h
  | float =>
    obtain ⟨_, x, -, -, rfl⟩ := h.exists_float
    exact fun path => rfl
  | union hvariants ih =>
    have hwidened := h.widened (.union hvariants) hvalue
    have hfirst := (Recordless.variants_settled hvariants hvalue).accepts_iff.mp h
    refine (Recordless.variants_settled hvariants (hwidened.regular hvalue)).accepts_iff.mpr ?_
    exact hfirst.again hvariants hvalue hwidened fun variant hvariant => ih variant hvariant hvalue
  | mapping hitem ih =>
    have hloaded := (h.widened (.mapping hitem) hvalue).regular hvalue
    obtain ⟨given, hgiven⟩ := h.exists_entries
    obtain ⟨entries, rfl, haccepts, rfl⟩ := (hitem.items_settled hvalue hgiven).accepts_iff.mp h
    refine (hitem.items_settled hloaded rfl).accepts_iff.mpr
      ⟨entries.map Entry.again, (Entry.allGiven_again entries).symm, ?_, ?_⟩
    · intro _ hagain
      obtain ⟨entry, hentry, rfl⟩ := List.mem_map.mp hagain
      exact ih (hvalue.of_part (Value.isPart_item hgiven (Entry.mem_allGiven hentry)))
        (haccepts entry hentry)
    · rw [Entry.allMade_again]

/-- By a schema without records, a value that was loaded is loaded as it is, at every path and,
since the interpreter's stack is not modelled, at every depth. -/
theorem load_again (hschema : Recordless schema) (hvalue : value.Regular)
    (h : load schema path value = .ok loaded) (path' : String) :
    load schema path' loaded = .ok loaded := by
  have hjudged := hschema.decided hvalue path
  rw [h] at hjudged
  cases hjudged with
  | accepted haccepts => exact haccepts.again hschema hvalue path'

/-- The mapping is none of integers, and stays none when its integer is a number with a fraction. -/
theorem load_again_of_union :
    let schema := Schema.union [.mapping .text .int, .union [.null, .mapping .text .float]]
    let value := Value.mapping [(.text "a", .int 1), (.text "b", .float 0.5)]
    let loaded := Value.mapping [(.text "a", .float 1), (.text "b", .float 0.5)]
    Recordless schema ∧ value.Regular ∧ load schema "$" value = .ok loaded ∧
      load schema "$" loaded = .ok loaded := by
  intro schema value loaded
  have hschema : Recordless schema := by
    refine .union (List.forall_mem_cons.mpr ⟨.mapping .int, List.forall_mem_singleton.mpr ?_⟩)
    exact .union (List.forall_mem_cons.mpr ⟨.null, List.forall_mem_singleton.mpr (.mapping .float)⟩)
  have hvalue : value.Regular := by
    refine .of_children nofun ?_ ?_
    · have hkeys : KeysApart (named [("a", .int 1), ("b", .float 0.5)]) :=
        keysApart_named_iff.mpr (by decide)
      rintro _ ⟨⟩
      exact hkeys
    · have hone : (Value.int 1).Regular := .of_children (by rintro _ ⟨⟩; decide) nofun nofun
      simpa [value, Value.children] using ⟨.text "a", .text "b", hone, .float 0.5⟩
  have hload : load schema "$" value = .ok loaded := rfl
  exact ⟨hschema, hvalue, hload, load_again hschema hvalue hload "$"⟩

end TagTemplate.Config
