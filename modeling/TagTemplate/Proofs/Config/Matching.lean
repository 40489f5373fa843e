import TagTemplate.Proofs.Config.Keys

/-! Which values a schema accepts, and what it makes of them. Both are said by rules, one for each
kind of schema. The rules agree: what is plain becomes something exactly if it matches, and one thing
only. -/
namespace TagTemplate.Value
open Config

/-- Nothing, truth values, numbers that are near one with a fraction, texts, and lists and mappings of
such values, where the keys of a mapping are texts. -/
inductive Plain : Value → Prop where
  | null : Plain .null
  | bool (b : Bool) : Plain (.bool b)
  | number (n : Number) : n.toFloat? ≠ none → Plain (.number n)
  | text (s : String) : Plain (.text s)
  | list (items : List Value) : (∀ item ∈ items, Plain item) → Plain (.list items)
  | mapping (items : List (String × Value)) : (items.map Prod.fst).Nodup →
    (∀ item ∈ items, Plain item.2) → Plain (.mapping (named items))

namespace Plain

variable {value value' : Value} {name : String} {entries : List (Value × Value)}

theorem exists_named (h : (Value.mapping entries).Plain) :
    ∃ items : List (String × Value), entries = named items ∧ (items.map Prod.fst).Nodup ∧
      ∀ item ∈ items, item.2.Plain := by
  cases h with
  | mapping items hnodup hitems => exact ⟨items, rfl, hnodup, hitems⟩

theorem of_entry (h : (Value.mapping entries).Plain) :
    ∀ entry ∈ entries, entry.1.Plain ∧ entry.2.Plain := by
  obtain ⟨items, rfl, -, hitems⟩ := exists_named h
  intro entry hentry
  obtain ⟨name, hitem, hkey⟩ := exists_of_mem_named hentry
  rw [hkey]
  exact ⟨.text name, hitems _ hitem⟩

theorem value_unique (h : (Value.mapping entries).Plain) (hvalue : (.text name, value) ∈ entries)
    (hvalue' : (.text name, value') ∈ entries) : value = value' := by
  obtain ⟨items, rfl, hnodup, -⟩ := exists_named h
  have hlookup := (lookup_named_eq_some_iff hnodup).mpr (mem_named.mp hvalue)
  have hlookup' := (lookup_named_eq_some_iff hnodup).mpr (mem_named.mp hvalue')
  exact Option.some.inj (hlookup.symm.trans hlookup')

end Plain
end TagTemplate.Value

namespace TagTemplate.Config

def Field.schema : Field → Schema
  | mk _ schema _ _ => schema

def Field.default? : Field → Option Value
  | mk _ _ default _ => default

def Known (entries : List (Value × Value)) (fields : List Field) : Prop :=
  ∀ entry ∈ entries, ∃ field ∈ fields, field.settable ∧ entry.1 = .text field.name

inductive Matches : Schema → Value → Prop where
  | any (value : Value) : Matches .any value
  | null : Matches .null .null
  | text (s : String) : Matches .text (.text s)
  | int (n : Int) : Matches .int (.int n)
  | float (n : Number) : Matches .float (.number n)
  | bool (b : Bool) : Matches .bool (.bool b)
  | union {variants : List Schema} {variant : Schema} {value : Value} :
    variant ∈ variants → Matches variant value → Matches (.union variants) value
  | mapping {key item : Schema} {entries : List (Value × Value)} :
    (∀ entry ∈ entries, Matches key entry.1) → (∀ entry ∈ entries, Matches item entry.2) →
    Matches (.mapping key item) (.mapping entries)
  | record {name : String} {fields : List Field} {entries : List (Value × Value)} :
    Known entries fields →
    (∀ field ∈ fields, field.settable → field.default? = none →
      ∃ given, (.text field.name, given) ∈ entries) →
    (∀ field ∈ fields, ∀ given, field.settable → (.text field.name, given) ∈ entries →
      Matches field.schema given) →
    Matches (.record name fields) (.mapping entries)

mutual
/-- What the schema makes of the value. -/
inductive Becomes : Schema → Value → Value → Prop where
  | any (value : Value) : Becomes .any value value
  | null : Becomes .null .null .null
  | text (s : String) : Becomes .text (.text s) (.text s)
  | int (n : Int) : Becomes .int (.int n) (.int n)
  | float {n : Number} {x : Float} : n.toFloat? = some x → Becomes .float (.number n) (.float x)
  | bool (b : Bool) : Becomes .bool (.bool b) (.bool b)
  | union {variants : List Schema} {value loaded : Value} :
    FirstBecomes variants value loaded → Becomes (.union variants) value loaded
  | mapping {key item : Schema} {entries loaded : List (Value × Value)} :
    EntriesBecome key item entries loaded →
    Becomes (.mapping key item) (.mapping entries) (.mapping loaded)
  | record {name : String} {fields : List Field} {entries : List (Value × Value)}
    {held : List (String × Value)} :
    Known entries fields → FieldsBecome entries fields held →
    Becomes (.record name fields) (.mapping entries) (.record name held)

inductive FirstBecomes : List Schema → Value → Value → Prop where
  | here {variant : Schema} (rest : List Schema) {value loaded : Value} :
    Becomes variant value loaded → FirstBecomes (variant :: rest) value loaded
  | later {variant : Schema} {rest : List Schema} {value loaded : Value} :
    ¬Matches variant value → FirstBecomes rest value loaded →
    FirstBecomes (variant :: rest) value loaded

inductive EntriesBecome : Schema → Schema → List (Value × Value) → List (Value × Value) → Prop where
  | nil (key item : Schema) : EntriesBecome key item [] []
  | cons {key item : Schema} {k k' v v' : Value} {rest rest' : List (Value × Value)} :
    Becomes key k k' → Becomes item v v' → EntriesBecome key item rest rest' →
    EntriesBecome key item ((k, v) :: rest) ((k', v') :: rest')

/-- What the fields hold: what is made of the value that is given for them, or else their default.
Without either a field cannot be given, and holds nothing. -/
inductive FieldsBecome : List (Value × Value) → List Field → List (String × Value) → Prop where
  | nil (entries : List (Value × Value)) : FieldsBecome entries [] []
  | given {entries : List (Value × Value)} {name : String} {schema : Schema} {default : Option Value}
    {rest : List Field} {value loaded : Value} {others : List (String × Value)} :
    (.text name, value) ∈ entries → Becomes schema value loaded →
    FieldsBecome entries rest others →
    FieldsBecome entries (.mk name schema default true :: rest) ((name, loaded) :: others)
  | default {entries : List (Value × Value)} {name : String} {schema : Schema} {default : Value}
    {settable : Bool} {rest : List Field} {others : List (String × Value)} :
    (settable → ∀ value, (.text name, value) ∉ entries) → FieldsBecome entries rest others →
    FieldsBecome entries (.mk name schema (some default) settable :: rest) ((name, default) :: others)
  | unset {entries : List (Value × Value)} {name : String} {schema : Schema} {rest : List Field}
    {others : List (String × Value)} :
    FieldsBecome entries rest others →
    FieldsBecome entries (.mk name schema none false :: rest) others
end

structure Suits (entries : List (Value × Value)) (fields : List Field) : Prop where
  required : ∀ field ∈ fields, field.settable → field.default? = none →
    ∃ given, (.text field.name, given) ∈ entries
  given : ∀ field ∈ fields, ∀ given, field.settable → (.text field.name, given) ∈ entries →
    Matches field.schema given

mutual
theorem Becomes.matches {schema : Schema} {value loaded : Value} :
    Becomes schema value loaded → value.Plain → Matches schema value
  | .any value, _ => .any value
  | .null, _ => .null
  | .text s, _ => .text s
  | .int n, _ => .int n
  | .float _, _ => .float _
  | .bool b, _ => .bool b
  | .union h, hplain =>
    have ⟨_, hvariant, hmatches⟩ := h.exists_matches hplain
    .union hvariant hmatches
  | .mapping h, hplain =>
    .mapping (fun entry hentry => (h.matches hplain.of_entry entry hentry).1)
      (fun entry hentry => (h.matches hplain.of_entry entry hentry).2)
  | .record hknown h, hplain =>
    have hsuits := h.suits hplain
    .record hknown hsuits.required hsuits.given

theorem FirstBecomes.exists_matches {variants : List Schema} {value loaded : Value} :
    FirstBecomes variants value loaded → value.Plain →
    ∃ variant ∈ variants, Matches variant value
  | .here _ h, hplain => ⟨_, .head _, h.matches hplain⟩
  | .later _ h, hplain =>
    have ⟨variant, hvariant, hmatches⟩ := h.exists_matches hplain
    ⟨variant, .tail _ hvariant, hmatches⟩

theorem EntriesBecome.matches {key item : Schema} {entries made : List (Value × Value)} :
    EntriesBecome key item entries made →
    (∀ entry ∈ entries, entry.1.Plain ∧ entry.2.Plain) →
    ∀ entry ∈ entries, Matches key entry.1 ∧ Matches item entry.2
  | .nil .., _ => nofun
  | .cons hkey hitem h, hplain =>
    have ⟨⟨hkeyPlain, hitemPlain⟩, hrest⟩ := List.forall_mem_cons.mp hplain
    List.forall_mem_cons.mpr
      ⟨⟨hkey.matches hkeyPlain, hitem.matches hitemPlain⟩, h.matches hrest⟩

theorem FieldsBecome.suits {entries : List (Value × Value)} {fields : List Field}
    {held : List (String × Value)} :
    FieldsBecome entries fields held → (Value.mapping entries).Plain → Suits entries fields
  | .nil _, _ => ⟨nofun, nofun⟩
  | .given hvalue h hrest, hplain => by
    have hmatches := h.matches (hplain.of_entry _ hvalue).2
    obtain ⟨hrequired, hgiven⟩ := hrest.suits hplain
    refine ⟨List.forall_mem_cons.mpr ⟨fun _ _ => ⟨_, hvalue⟩, hrequired⟩,
      List.forall_mem_cons.mpr ⟨fun value _ hvalue' => ?_, hgiven⟩⟩
    cases hplain.value_unique hvalue hvalue'
    exact hmatches
  | .default hnone hrest, hplain => by
    obtain ⟨hrequired, hgiven⟩ := hrest.suits hplain
    exact ⟨List.forall_mem_cons.mpr ⟨nofun, hrequired⟩,
      List.forall_mem_cons.mpr ⟨fun value hset hvalue => absurd hvalue (hnone hset value), hgiven⟩⟩
  | .unset hrest, hplain => by
    obtain ⟨hrequired, hgiven⟩ := hrest.suits hplain
    exact ⟨List.forall_mem_cons.mpr ⟨nofun, hrequired⟩, List.forall_mem_cons.mpr ⟨nofun, hgiven⟩⟩
end

mutual
theorem Becomes.unique {schema : Schema} {value loaded loaded' : Value} :
    Becomes schema value loaded → Becomes schema value loaded' → value.Plain → loaded = loaded'
  | .any _, .any _, _ => rfl
  | .null, .null, _ => rfl
  | .text _, .text _, _ => rfl
  | .int _, .int _, _ => rfl
  | .float h, .float h', _ => congrArg Value.float (Option.some.inj (h.symm.trans h'))
  | .bool _, .bool _, _ => rfl
  | .union h, .union h', hplain => h.unique h' hplain
  | .mapping h, .mapping h', hplain => congrArg Value.mapping (h.unique h' hplain.of_entry)
  | .record _ h, .record _ h', hplain => congrArg (Value.record _) (h.unique h' hplain)
termination_by structural h => h

theorem FirstBecomes.unique {variants : List Schema} {value loaded loaded' : Value} :
    FirstBecomes variants value loaded → FirstBecomes variants value loaded' → value.Plain →
    loaded = loaded'
  | .here _ h, .here _ h', hplain => h.unique h' hplain
  | .here _ h, .later hno _, hplain => absurd (h.matches hplain) hno
  | .later hno _, .here _ h', hplain => absurd (h'.matches hplain) hno
  | .later _ h, .later _ h', hplain => h.unique h' hplain
termination_by structural h => h

theorem EntriesBecome.unique {key item : Schema} {entries made made' : List (Value × Value)} :
    EntriesBecome key item entries made → EntriesBecome key item entries made' →
    (∀ entry ∈ entries, entry.1.Plain ∧ entry.2.Plain) → made = made'
  | .nil .., .nil .., _ => rfl
  | .cons hkey hitem h, .cons hkey' hitem' h', hplain => by
    obtain ⟨⟨hkeyPlain, hitemPlain⟩, hrest⟩ := List.forall_mem_cons.mp hplain
    rw [hkey.unique hkey' hkeyPlain, hitem.unique hitem' hitemPlain, h.unique h' hrest]
termination_by structural h => h

theorem FieldsBecome.unique {entries : List (Value × Value)} {fields : List Field}
    {held held' : List (String × Value)} :
    FieldsBecome entries fields held → FieldsBecome entries fields held' →
    (Value.mapping entries).Plain → held = held'
  | .nil _, .nil _, _ => rfl
  | .given hvalue h hrest, .given hvalue' h' hrest', hplain => by
    cases hplain.value_unique hvalue hvalue'
    rw [h.unique h' (hplain.of_entry _ hvalue).2, hrest.unique hrest' hplain]
  | .given hvalue _ _, .default hnone _, _ => absurd hvalue (hnone rfl _)
  | .default hnone _, .given hvalue _ _, _ => absurd hvalue (hnone rfl _)
  | .default _ hrest, .default _ hrest', hplain => by rw [hrest.unique hrest' hplain]
  | .unset hrest, .unset hrest', hplain => hrest.unique hrest' hplain
termination_by structural h => h
end

end TagTemplate.Config
