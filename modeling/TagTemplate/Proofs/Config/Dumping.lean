import Mathlib.Data.List.Forall2
import TagTemplate.Proofs.Config.Loading

/-! Loading undoes dumping. A value of the kind that a schema asks for is dumped with its records
turned into mappings, and loading gives it back, also where fields are left out that hold their
defaults. -/
namespace TagTemplate.Config

mutual
def dump : Value → Value
  | .mapping entries => .mapping (dumpEntries entries)
  | .record _ held => .mapping (named (dumpFields held))
  | value => value

def dumpEntries : List (Value × Value) → List (Value × Value)
  | [] => []
  | (key, value) :: rest => (key, dump value) :: dumpEntries rest

def dumpFields : List (String × Value) → List (String × Value)
  | [] => []
  | (name, value) :: rest => (name, dump value) :: dumpFields rest
end

/-- Values of the schema can be told from their dumps: a union is of one schema and of nothing, the keys
of mappings are texts, and all fields of a record can be given. -/
inductive Dumpable : Schema → Prop where
  | null : Dumpable .null
  | text : Dumpable .text
  | int : Dumpable .int
  | float : Dumpable .float
  | bool : Dumpable .bool
  | orNull {schema : Schema} : Dumpable schema → Dumpable (.union [schema, .null])
  | nullOr {schema : Schema} : Dumpable schema → Dumpable (.union [.null, schema])
  | mapping {item : Schema} : Dumpable item → Dumpable (.mapping .text item)
  | record {name : String} {fields : List Field} :
    (fields.map Field.name).Nodup → (∀ field ∈ fields, field.settable) →
    (∀ field ∈ fields, Dumpable field.schema) → Dumpable (.record name fields)

mutual
/-- The first value is of the kind that the schema asks for, and the other is a dump of it, in which
fields may be left out that hold the same as their defaults. -/
inductive Dumps (Same : Value → Value → Prop) : Schema → Value → Value → Prop where
  | null : Dumps Same .null .null .null
  | text (s : String) : Dumps Same .text (.text s) (.text s)
  | int (n : Int) : Dumps Same .int (.int n) (.int n)
  | float (x : Float) : Dumps Same .float (.float x) (.float x)
  | bool (b : Bool) : Dumps Same .bool (.bool b) (.bool b)
  | union {variants : List Schema} {variant : Schema} {value raw : Value} :
    variant ∈ variants → Dumps Same variant value raw → Dumps Same (.union variants) value raw
  | mapping {item : Schema} {held raws : List (String × Value)} :
    (held.map Prod.fst).Nodup → ItemsDump Same item held raws →
    Dumps Same (.mapping .text item) (.mapping (named held)) (.mapping (named raws))
  | record {name : String} {fields : List Field} {held raws : List (String × Value)} :
    FieldsDump Same fields held raws →
    Dumps Same (.record name fields) (.record name held) (.mapping (named raws))

inductive ItemsDump (Same : Value → Value → Prop) :
    Schema → List (String × Value) → List (String × Value) → Prop where
  | nil (item : Schema) : ItemsDump Same item [] []
  | cons (name : String) {item : Schema} {value raw : Value} {rest raws : List (String × Value)} :
    Dumps Same item value raw → ItemsDump Same item rest raws →
    ItemsDump Same item ((name, value) :: rest) ((name, raw) :: raws)

inductive FieldsDump (Same : Value → Value → Prop) :
    List Field → List (String × Value) → List (String × Value) → Prop where
  | nil : FieldsDump Same [] [] []
  | keep (name : String) (default : Option Value) {schema : Schema} {rest : List Field}
    {value raw : Value} {others raws : List (String × Value)} :
    Dumps Same schema value raw → FieldsDump Same rest others raws →
    FieldsDump Same (.mk name schema default true :: rest) ((name, value) :: others)
      ((name, raw) :: raws)
  | leaveOut (name : String) (schema : Schema) {default value : Value} {rest : List Field}
    {others raws : List (String × Value)} :
    Same default value → FieldsDump Same rest others raws →
    FieldsDump Same (.mk name schema (some default) true :: rest) ((name, value) :: others) raws
end

def SameItems (Same : Value → Value → Prop) :
    List (String × Value) → List (String × Value) → Prop :=
  List.Forall₂ fun a b => a.1 = b.1 ∧ Same a.2 b.2

/-- A sense in which values can be the same: mappings and records are if all in them is. -/
structure Sameness (Same : Value → Value → Prop) : Prop where
  refl (value : Value) : Same value value
  mapping {held held' : List (String × Value)} :
    SameItems Same held held' → Same (.mapping (named held)) (.mapping (named held'))
  record (name : String) {held held' : List (String × Value)} :
    SameItems Same held held' → Same (.record name held) (.record name held')

theorem eq_of_sameItems {held held' : List (String × Value)} (h : SameItems Eq held held') :
    held = held' := by
  induction h with
  | nil => rfl
  | cons hitem _ ih => rw [ih, Prod.ext hitem.1 hitem.2]

theorem sameness_eq : Sameness Eq where
  refl _ := rfl
  mapping h := by rw [eq_of_sameItems h]
  record _ _ _ h := by rw [eq_of_sameItems h]

variable {Same : Value → Value → Prop} {schema item variant : Schema} {fields rest : List Field}
  {variants : List Schema} {value raw loaded : Value} {entries : List (Value × Value)}
  {held raws others done : List (String × Value)} {path name : String}

theorem Dumps.eq_null {schema : Schema} {value raw : Value} :
    Dumps Same schema value raw → raw = .null → value = .null
  | .null, _ => rfl
  | .union _ h, hraw => h.eq_null hraw

theorem load_null_cases (schema : Schema) (path : String) :
    load schema path .null = .ok .null ∨
      ∃ place reason, load schema path .null = .error (.misfit place reason) := by
  have hjudged := load_judged schema path .null .null
  generalize load schema path .null = result at hjudged
  cases hjudged with
  | accepted h => exact .inl (congrArg _ (h.eq_self nofun nofun))
  | refused => exact .inr ⟨_, _, rfl⟩

theorem loadFields_given {default : Option Value} {rest : List Field}
    (hgiven : lookup entries name = some value)
    (hload : load schema s!"{path}.{name}" value = .ok loaded)
    (hrest : loadFields rest path entries = .ok others) :
    loadFields (.mk name schema default true :: rest) path entries =
      .ok ((name, loaded) :: others) := by
  simp only [loadFields, if_true, hgiven, loadField, hload, hrest]
  rfl

theorem loadFields_default {default : Value} {rest : List Field} (hnone : lookup entries name = none)
    (hrest : loadFields rest path entries = .ok others) :
    loadFields (.mk name schema (some default) true :: rest) path entries =
      .ok ((name, default) :: others) := by
  simp only [loadFields, if_true, hnone, loadField, hrest]
  rfl

theorem FieldsDump.mem_names (h : FieldsDump Same fields held raws) :
    ∀ name ∈ raws.map Prod.fst, name ∈ fields.map Field.name := by
  induction fields generalizing held raws with
  | nil =>
    cases h
    exact nofun
  | cons field rest ih =>
    cases h with
    | keep name default _ h =>
      exact List.forall_mem_cons.mpr
        ⟨List.mem_cons_self, fun other hother => .tail _ (ih h other hother)⟩
    | leaveOut name schema _ h => exact fun other hother => .tail _ (ih h other hother)

theorem Dumpable.of_variant (h : Dumpable (.union variants)) (hvariant : variant ∈ variants) :
    Dumpable variant := by
  cases h with
  | orNull h =>
    obtain rfl | rfl := List.mem_pair.mp hvariant
    · exact h
    · exact .null
  | nullOr h =>
    obtain rfl | rfl := List.mem_pair.mp hvariant
    · exact .null
    · exact h

/-- What is loaded from a dump by its variant is loaded by the union, too, unless nothing was
dumped. -/
theorem load_union_of_dump (hschema : Dumpable (.union variants)) (hvariant : variant ∈ variants)
    (hdump : Dumps Same variant value raw) (hload : ∀ path, load variant path raw = .ok loaded) :
    (∀ path, load (.union variants) path raw = .ok loaded) ∨
      (∀ path, load (.union variants) path raw = .ok .null) ∧ value = .null := by
  simp only [load_union]
  cases hschema with
  | @orNull schema =>
    obtain rfl | rfl := List.mem_pair.mp hvariant
    · exact .inl fun path => loadUnion_of_ok (hload path) _ _
    · cases hdump
      refine .inr ⟨fun path => ?_, rfl⟩
      -- The schema in front may take nothing for a value of its own, which comes to the same.
      obtain hnull | ⟨place, reason, hmisfit⟩ := load_null_cases schema path
      · exact loadUnion_of_ok hnull _ _
      · obtain ⟨refusals, hrest⟩ := loadUnion_of_misfit hmisfit [.null] []
        exact hrest
  | @nullOr schema =>
    obtain rfl | rfl := List.mem_pair.mp hvariant
    · cases hdump
      exact .inr ⟨fun _ => rfl, rfl⟩
    · by_cases hraw : raw = .null
      · obtain rfl := hdump.eq_null hraw
        subst hraw
        exact .inr ⟨fun _ => rfl, rfl⟩
      · refine .inl fun path => ?_
        have hmisfit : load .null path raw = .error (.misfit path (.expected "None" raw.kind)) := by
          cases raw with
          | null => exact absurd rfl hraw
          | _ => rfl
        obtain ⟨refusals, hrest⟩ := loadUnion_of_misfit hmisfit [variant] []
        rw [hrest]
        exact loadUnion_of_ok (hload path) _ _

mutual
/-- From a dump something is loaded that is the same as what was dumped. -/
theorem Dumps.load {schema : Schema} {value raw : Value} :
    Dumps Same schema value raw → Sameness Same → Dumpable schema →
    ∃ loaded, (∀ path, load schema path raw = .ok loaded) ∧ Same loaded value
  | .null, hsame, _ => ⟨_, fun _ => rfl, hsame.refl _⟩
  | .text _, hsame, _ => ⟨_, fun _ => rfl, hsame.refl _⟩
  | .int _, hsame, _ => ⟨_, fun _ => rfl, hsame.refl _⟩
  | .float _, hsame, _ => ⟨_, fun _ => rfl, hsame.refl _⟩
  | .bool _, hsame, _ => ⟨_, fun _ => rfl, hsame.refl _⟩
  | .union hvariant h, hsame, hschema => by
    obtain ⟨loaded, hload, hvalue⟩ := h.load hsame (hschema.of_variant hvariant)
    obtain hloaded | ⟨hnull, rfl⟩ := load_union_of_dump hschema hvariant h hload
    · exact ⟨loaded, hloaded, hvalue⟩
    · exact ⟨.null, hnull, hsame.refl _⟩
  | .mapping hnodup h, hsame, .mapping hitem => by
    obtain ⟨made, hload, hitems⟩ := h.load hsame hitem
    refine ⟨.mapping (named made), fun path => ?_, hsame.mapping hitems⟩
    have hentries := hload path [] hnodup
    rw [load_mapping rfl]
    exact congrArg (Except.map Value.mapping) hentries
  | @Dumps.record _ name fields _ raws h, hsame, .record hnodup hsettable hfields => by
    obtain ⟨made, hload, hitems⟩ := h.load hsame hnodup hfields
    refine ⟨.record name made, fun path => ?_, hsame.record name hitems⟩
    have hknown : Known (named raws) fields := by
      intro entry hentry
      obtain ⟨name, hmem, hname⟩ := exists_of_mem_named hentry
      obtain ⟨field, hfield, rfl⟩ :=
        List.mem_map.mp (h.mem_names name (List.mem_map.mpr ⟨_, hmem, rfl⟩))
      exact ⟨field, hfield, hsettable field hfield, hname⟩
    rw [load_record rfl, checkKeys_fields_eq_ok_iff.mpr hknown, hload path _ fun _ _ => rfl]
    rfl

theorem ItemsDump.load {item : Schema} {held raws : List (String × Value)} :
    ItemsDump Same item held raws → Sameness Same → Dumpable item →
    ∃ made, (∀ path done, ((done ++ held).map Prod.fst).Nodup →
      loadEntries (load .text) (load item) path (named done) (named raws) =
        .ok (named (done ++ made))) ∧ SameItems Same made held
  | .nil item, hsame, _ => ⟨[], fun path done _ => by rw [List.append_nil]; rfl, .nil⟩
  | .cons name h hrest, hsame, hitem => by
    obtain ⟨loaded, hload, hvalue⟩ := h.load hsame hitem
    obtain ⟨made, hmade, hitems⟩ := hrest.load hsame hitem
    refine ⟨(name, loaded) :: made, fun path done hnodup => ?_, .cons ⟨rfl, hvalue⟩ hitems⟩
    have hnew := notMem_of_nodup_append hnodup
    have hothers := hmade path (done ++ [(name, loaded)]) (by simpa using hnodup)
    rw [← insertEntry_named_of_new hnew, List.append_assoc, List.singleton_append] at hothers
    rw [named_cons, loadEntries]
    simp only [hload]
    exact hothers

theorem FieldsDump.load {fields : List Field} {held raws : List (String × Value)} :
    FieldsDump Same fields held raws → Sameness Same → (fields.map Field.name).Nodup →
    (∀ field ∈ fields, Dumpable field.schema) →
    ∃ made, (∀ path entries,
      (∀ field ∈ fields, lookup entries field.name = lookup (named raws) field.name) →
      loadFields fields path entries = .ok made) ∧ SameItems Same made held
  | .nil, _, _, _ => ⟨[], fun _ _ _ => rfl, .nil⟩
  | .keep name default h hrest, hsame, hnodup, hfields => by
    obtain ⟨hfield, hfields⟩ := List.forall_mem_cons.mp hfields
    obtain ⟨hnew, hnodup⟩ := List.nodup_cons.mp hnodup
    obtain ⟨loaded, hload, hvalue⟩ := h.load hsame hfield
    obtain ⟨made, hmade, hitems⟩ := hrest.load hsame hnodup hfields
    refine ⟨(name, loaded) :: made, fun path entries hlookup => ?_, .cons ⟨rfl, hvalue⟩ hitems⟩
    obtain ⟨hgiven, hothers⟩ := List.forall_mem_cons.mp hlookup
    refine loadFields_given (hgiven.trans (lookup_named_self ..)) (hload _) (hmade path entries ?_)
    -- The fields behind have other names, and are looked up behind this entry.
    intro field hmem
    rw [hothers field hmem, lookup_named_of_ne]
    rintro rfl
    exact hnew (List.mem_map.mpr ⟨field, hmem, rfl⟩)
  | @FieldsDump.leaveOut _ name _ default _ _ _ raws hdefault hrest, hsame, hnodup, hfields => by
    obtain ⟨-, hfields⟩ := List.forall_mem_cons.mp hfields
    obtain ⟨hnew, hnodup⟩ := List.nodup_cons.mp hnodup
    obtain ⟨made, hmade, hitems⟩ := hrest.load hsame hnodup hfields
    refine ⟨(name, default) :: made, fun path entries hlookup => ?_, .cons ⟨rfl, hdefault⟩ hitems⟩
    obtain ⟨hgiven, hothers⟩ := List.forall_mem_cons.mp hlookup
    -- All entries belong to fields behind.
    have hnone : lookup (named raws) name = none := lookup_named_eq_none_iff.mpr fun value hmem =>
      hnew (hrest.mem_names name (List.mem_map.mpr ⟨_, hmem, rfl⟩))
    exact loadFields_default (hgiven.trans hnone) (hmade path entries hothers)
end

theorem dumpEntries_named (held : List (String × Value)) :
    dumpEntries (named held) = named (dumpFields held) := by
  induction held with
  | nil => rfl
  | cons item rest ih => rw [named_cons, dumpEntries, ih, dumpFields, named_cons]

theorem exists_named_of_texts {lax : Prop} (h : ∀ entry ∈ entries, Inhabits lax .text entry.1) :
    ∃ held, entries = named held := by
  induction entries with
  | nil => exact ⟨[], rfl⟩
  | cons entry rest ih =>
    obtain ⟨key, value⟩ := entry
    obtain ⟨hkey, hrest⟩ := List.forall_mem_cons.mp h
    cases hkey with
    | text name =>
      obtain ⟨held, rfl⟩ := ih hrest
      exact ⟨(name, value) :: held, rfl⟩

theorem itemsDump_dumpFields (h : ∀ entry ∈ held, Dumps Same item entry.2 (dump entry.2)) :
    ItemsDump Same item held (dumpFields held) := by
  induction held with
  | nil => exact .nil item
  | cons entry rest ih =>
    obtain ⟨hentry, hrest⟩ := List.forall_mem_cons.mp h
    exact .cons entry.1 hentry (ih hrest)

mutual
theorem Inhabits.dumps {schema : Schema} {value : Value} :
    Inhabits False schema value → Dumpable schema → Dumps Same schema value (dump value)
  | .null, _ => .null
  | .text s, _ => .text s
  | .int n, _ => .int n
  | .float x, _ => .float x
  | .bool b, _ => .bool b
  | .union hvariant h, hschema => .union hvariant (h.dumps (hschema.of_variant hvariant))
  | .mapping hapart hkeys hitems, .mapping hitem => by
    have hdumps := fun entry hentry => (hitems entry hentry).dumps hitem
    obtain ⟨held, rfl⟩ := exists_named_of_texts hkeys
    rw [dump, dumpEntries_named]
    refine .mapping (keysApart_named_iff.mp hapart) (itemsDump_dumpFields ?_)
    exact fun entry hentry => hdumps _ (mem_named.mpr hentry)
  | .record h, .record _ hsettable hfields => .record (h.dumps hsettable hfields)

theorem FieldsInhabit.dumps {fields : List Field} {held : List (String × Value)} :
    FieldsInhabit False fields held → (∀ field ∈ fields, field.settable) →
    (∀ field ∈ fields, Dumpable field.schema) → FieldsDump Same fields held (dumpFields held)
  | .nil, _, _ => .nil
  | .value h hrest, hsettable, hfields => by
    obtain ⟨hset, hothersSettable⟩ := List.forall_mem_cons.mp hsettable
    obtain ⟨hfield, hothersDumpable⟩ := List.forall_mem_cons.mp hfields
    obtain rfl : _ = true := hset
    exact .keep _ _ (h.dumps hfield) (hrest.dumps hothersSettable hothersDumpable)
  | .unset hrest, hsettable, _ => nomatch hsettable _ (.head _)
end

/-- A value of the kind that a schema asks for is loaded from its dump, and from every dump of it in
which fields are left out that hold their defaults. Where they hold what is only the same in some
sense, what is loaded is the same in that sense. The interpreter's stack is not modelled. -/
theorem load_undoes_dump {schema : Schema} (hschema : Dumpable schema) {value : Value}
    (hvalue : Inhabits False schema value) :
    (∀ path, load schema path (dump value) = .ok value) ∧
    (∀ raw, Dumps Eq schema value raw → ∀ path, load schema path raw = .ok value) ∧
    ∀ Same, Sameness Same → ∀ raw, Dumps Same schema value raw →
      ∃ loaded, (∀ path, load schema path raw = .ok loaded) ∧ Same loaded value := by
  have hexact : ∀ raw, Dumps Eq schema value raw → ∀ path, load schema path raw = .ok value := by
    intro raw hraw
    obtain ⟨loaded, hload, rfl⟩ := hraw.load sameness_eq hschema
    exact hload
  exact ⟨hexact _ (hvalue.dumps hschema), hexact, fun Same hsame raw hraw => hraw.load hsame hschema⟩

theorem dumpable_pointSchema : Dumpable pointSchema := by
  refine .record (by decide) (by simp [Field.settable]) ?_
  simpa [Field.schema] using ⟨.float, .orNull .text⟩

def lineSchema : Schema :=
  .record "Line" [.mk "start" (.union [pointSchema, .null]) none true,
    .mk "name" .text (some (.text "line")) true, .mk "weights" (.mapping .text .float) none true]

/-- The name of the line and the label of its start are left out of the second mapping. -/
theorem line_loaded_from_dumps :
    let weights := Value.mapping (named [("u", .float 1.5)])
    let line := Value.record "Line"
      [("start", .record "Point" [("x", .float 0.5), ("label", .null)]), ("name", .text "line"),
        ("weights", weights)]
    let raw := Value.mapping
      (named [("start", .mapping (named [("x", .float 0.5)])), ("weights", weights)])
    Dumpable lineSchema ∧ Inhabits False lineSchema line ∧
      load lineSchema "$" (dump line) = .ok line ∧ load lineSchema "$" raw = .ok line := by
  intro weights line raw
  have hschema : Dumpable lineSchema := by
    refine .record (by decide) (by simp [Field.settable]) ?_
    simpa [Field.schema] using ⟨.orNull dumpable_pointSchema, .text, .mapping .float⟩
  have hpoint : Inhabits False pointSchema (.record "Point" [("x", .float 0.5), ("label", .null)]) :=
    .record (.value (.float _) (.value (.union (List.mem_pair.mpr (.inr rfl)) .null) .nil))
  have hweights : Inhabits False (.mapping .text .float) weights :=
    .mapping (keysApart_named_iff.mpr (by decide)) (by simpa [named] using .text _)
      (by simpa [named] using .float _)
  have hline : Inhabits False lineSchema line :=
    .record (.value (.union (List.mem_pair.mpr (.inl rfl)) hpoint)
      (.value (.text _) (.value hweights .nil)))
  have hpointDump : Dumps Eq pointSchema (.record "Point" [("x", .float 0.5), ("label", .null)])
      (.mapping (named [("x", .float 0.5)])) :=
    .record (.keep _ _ (.float _) (.leaveOut _ _ rfl .nil))
  have hweightsDump : Dumps Eq (.mapping .text .float) weights weights :=
    .mapping (by decide) (.cons _ (.float _) (.nil _))
  have hraw : Dumps Eq lineSchema line raw :=
    .record (.keep _ _ (.union (List.mem_pair.mpr (.inl rfl)) hpointDump)
      (.leaveOut _ _ rfl (.keep _ _ hweightsDump .nil)))
  obtain ⟨hdump, hshort, -⟩ := load_undoes_dump hschema hline
  exact ⟨hschema, hline, hdump "$", hshort raw hraw "$"⟩

end TagTemplate.Config
