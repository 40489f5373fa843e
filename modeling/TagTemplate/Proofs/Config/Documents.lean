import TagTemplate.Config.Load
import TagTemplate.Proofs.Config.Keys

/-! Which documents are settings. A document without a value gives the defaults, and otherwise it is a
mapping from the three names to values of their kinds. -/
namespace TagTemplate.Config

variable {path : String} {value : Value} {entries : List (Value × Value)}

def settingNames : List String := ["timeout", "seed", "variables"]

def textEntries (constants : List (String × String)) : List (Value × Value) :=
  constants.map fun (name, text) => (.text name, .text text)

/-- The mapping has no keys but the names of settings, and every value is of the kind that its name
asks for: nothing or a number, nothing or an integer, a mapping from texts to texts. -/
structure Valid (entries : List (Value × Value)) : Prop where
  known : ∀ entry ∈ entries, ∃ name ∈ settingNames, entry.1 = .text name
  timeout : ∀ v, lookup entries "timeout" = some v → v = .null ∨ ∃ n, v = .number n
  seed : ∀ v, lookup entries "seed" = some v → v = .null ∨ ∃ n, v = .int n
  named : ∀ v, lookup entries "variables" = some v →
    ∃ constants, v.entries? = some (textEntries constants)

/-- The timeout is near a number with a fraction, and the seed can be written in full. -/
structure InRange (entries : List (Value × Value)) : Prop where
  timeout : ∀ n, lookup entries "timeout" = some (.number n) → n.toFloat? ≠ none
  seed : ∀ n, lookup entries "seed" = some (.number n) → n.isWritable = true

structure Describes (entries : List (Value × Value)) (s : Settings) : Prop where
  timeout : s.timeout = match lookup entries "timeout" with
    | some (.number n) => n.toFloat?.map .float
    | _ => none
  seed : s.seed = match lookup entries "seed" with
    | some (.number (.int n)) => some n
    | _ => none
  unnamed : lookup entries "variables" = none → s.constants = []
  constants : ∀ v constants, lookup entries "variables" = some v →
    v.entries? = some (textEntries constants) → (constants.map Prod.fst).Nodup →
    s.constants = constants

variable {path : String} {value loaded : Value} {given : Option Value}
  {entries : List (Value × Value)} {constants : List (String × String)}

theorem bind_eq_ok {ε α β : Type} {x : Except ε α} {f : α → Except ε β} {b : β} :
    (x >>= f) = .ok b ↔ ∃ a, x = .ok a ∧ f a = .ok b := by
  cases x with
  | error e => exact ⟨nofun, nofun⟩
  | ok a => exact ⟨fun h => ⟨a, rfl, h⟩, fun ⟨_, ha, h⟩ => Except.ok.inj ha ▸ h⟩

theorem mapError_eq_ok_iff {ε δ α : Type} {f : ε → δ} {x : Except ε α} {a : α} :
    x.mapError f = .ok a ↔ x = .ok a := by
  cases x <;> simp [Except.mapError]

def collect (done : List (Value × Value)) (constants : List (String × String)) :
    List (Value × Value) :=
  constants.foldl (fun done (name, text) => Value.insertEntry done (.text name) (.text text)) done

theorem exists_insertEntry_textEntries (constants : List (String × String)) (name text : String) :
    ∃ more, Value.insertEntry (textEntries constants) (.text name) (.text text) =
      textEntries more := by
  induction constants with
  | nil => exact ⟨[(name, text)], rfl⟩
  | cons constant rest ih =>
    obtain ⟨more, hmore⟩ := ih
    simp only [textEntries, List.map_cons, Value.insertEntry]
    split
    · exact ⟨(constant.1, text) :: rest, rfl⟩
    · refine ⟨constant :: more, ?_⟩
      rw [← textEntries, hmore]
      rfl

theorem exists_collect_textEntries (done constants : List (String × String)) :
    ∃ more, collect (textEntries done) constants = textEntries more := by
  induction constants generalizing done with
  | nil => exact ⟨done, rfl⟩
  | cons constant rest ih =>
    obtain ⟨more, hmore⟩ := exists_insertEntry_textEntries done constant.1 constant.2
    simp only [collect, List.foldl_cons, hmore]
    exact ih more

theorem textEntries_eq_named (constants : List (String × String)) :
    textEntries constants = named (constants.map fun constant => (constant.1, .text constant.2)) := by
  simp [textEntries, named]

theorem insertEntry_textEntries_of_new {name : String} (h : name ∉ constants.map Prod.fst)
    (text : String) :
    Value.insertEntry (textEntries constants) (.text name) (.text text) =
      textEntries (constants ++ [(name, text)]) := by
  rw [textEntries_eq_named, insertEntry_named_of_new (by simpa using h), textEntries_eq_named,
    List.map_append]
  rfl

theorem collect_of_nodup (done constants : List (String × String))
    (h : ((done ++ constants).map Prod.fst).Nodup) :
    collect (textEntries done) constants = textEntries (done ++ constants) := by
  induction constants generalizing done with
  | nil => simp [collect]
  | cons constant rest ih =>
    have hnew := insertEntry_textEntries_of_new (notMem_of_nodup_append h)
    simp only [collect, List.foldl_cons, hnew]
    have hrest := ih (done ++ [constant]) (by simpa using h)
    simpa [collect] using hrest

theorem keysApart_collect {done : List (Value × Value)} (h : KeysApart done)
    (constants : List (String × String)) : KeysApart (collect done constants) := by
  induction constants generalizing done with
  | nil => exact h
  | cons constant rest ih => exact ih (h.insertEntry _ _)

theorem keysApart_textEntries_iff :
    KeysApart (textEntries constants) ↔ (constants.map Prod.fst).Nodup := by
  rw [textEntries_eq_named, keysApart_named_iff, List.map_map]
  rfl

theorem loadEntries_textEntries (done : List (Value × Value)) (constants : List (String × String)) :
    loadEntries (load .text) (load .text) path done (textEntries constants) =
      .ok (collect done constants) := by
  induction constants generalizing done with
  | nil => rfl
  | cons constant rest ih => exact ih _

theorem exists_textEntries_of_loadEntries {done rest loaded : List (Value × Value)}
    (h : loadEntries (load .text) (load .text) path done rest = .ok loaded) :
    ∃ constants, rest = textEntries constants := by
  induction rest generalizing done with
  | nil => exact ⟨[], rfl⟩
  | cons entry rest ih =>
    obtain ⟨key, item⟩ := entry
    cases key with
    | text name =>
      cases item with
      | text text =>
        obtain ⟨constants, rfl⟩ := ih h
        exact ⟨(name, text) :: constants, rfl⟩
      | _ => cases h
    | _ => cases h

theorem entriesWritable_textEntries (constants : List (String × String)) :
    Value.entriesWritable (textEntries constants) = true := by
  induction constants with
  | nil => rfl
  | cons constant rest ih => simpa [textEntries, Value.entriesWritable, Value.isWritable] using ih

theorem variablesOf_textEntries (constants : List (String × String)) :
    Settings.variablesOf (.mapping (textEntries constants)) = constants := by
  induction constants with
  | nil => rfl
  | cons constant rest ih =>
    simp only [Settings.variablesOf, textEntries, List.map_cons, List.filterMap_cons] at ih ⊢
    rw [ih]

def loadGiven (schema : Schema) (default : Value) (path : String) :
    Option Value → Except LoadError Value
  | some value => load schema path value
  | none => .ok default

def loadSetting (schema : Schema) (default : Value) (path name : String)
    (entries : List (Value × Value)) : Except LoadError Value :=
  loadGiven schema default s!"{path}.{name}" (lookup entries name)

def Unset (given : Option Value) : Prop :=
  given = none ∨ given = some .null

def LoadsTimeout (given : Option Value) (loaded : Value) : Prop :=
  (Unset given ∧ loaded = .null) ∨
    ∃ n x, given = some (.number n) ∧ n.toFloat? = some x ∧ loaded = .float x

def LoadsSeed (given : Option Value) (loaded : Value) : Prop :=
  (Unset given ∧ loaded = .null) ∨ ∃ n, given = some (.int n) ∧ loaded = .int n

def LoadsVariables (given : Option Value) (loaded : Value) : Prop :=
  (given = none ∧ loaded = .mapping []) ∨
    ∃ value constants, given = some value ∧ value.entries? = some (textEntries constants) ∧
      loaded = .mapping (collect [] constants)

theorem loadGiven_timeout_eq_ok_iff :
    loadGiven (.union [.float, .null]) .null path given = .ok loaded ↔
      LoadsTimeout given loaded := by
  rcases given with _ | value
  · simp [loadGiven, LoadsTimeout, Unset, eq_comm]
  · cases value with
    | number n => cases hx : n.toFloat? <;>
        simp [loadGiven, load, loadUnion, loadFloat, LoadsTimeout, Unset, hx, eq_comm]
    | _ => simp [loadGiven, load, loadUnion, loadFloat, LoadsTimeout, Unset, eq_comm]

theorem loadGiven_seed_eq_ok_iff :
    loadGiven (.union [.int, .null]) .null path given = .ok loaded ↔ LoadsSeed given loaded := by
  rcases given with _ | value
  · simp [loadGiven, LoadsSeed, Unset, eq_comm]
  · cases value with
    | number n => cases n <;>
        simp [loadGiven, load, loadUnion, expect, LoadsSeed, Unset, Value.int, eq_comm]
    | _ => simp [loadGiven, load, loadUnion, expect, LoadsSeed, Unset, Value.int, eq_comm]

theorem load_texts_eq_ok_iff :
    load (.mapping .text .text) path value = .ok loaded ↔
      ∃ constants, value.entries? = some (textEntries constants) ∧
        loaded = .mapping (collect [] constants) := by
  constructor
  · intro h
    cases hvalue : value.entries? with
    | none =>
      simp only [load, hvalue] at h
      cases h
    | some entries =>
      rw [load_mapping hvalue] at h
      rcases hload : loadEntries (load .text) (load .text) path [] entries with e | done
      · rw [hload] at h
        cases h
      · obtain ⟨constants, rfl⟩ := exists_textEntries_of_loadEntries hload
        rw [loadEntries_textEntries] at h
        exact ⟨constants, rfl, (Except.ok.inj h).symm⟩
  · rintro ⟨constants, hvalue, rfl⟩
    rw [load_mapping hvalue, loadEntries_textEntries]
    rfl

theorem loadGiven_variables_eq_ok_iff :
    loadGiven (.mapping .text .text) (.mapping []) path given = .ok loaded ↔
      LoadsVariables given loaded := by
  rcases given with _ | value
  · simp [loadGiven, LoadsVariables, eq_comm]
  · simp [loadGiven, load_texts_eq_ok_iff, LoadsVariables]

theorem loadFields_cons (name : String) (schema : Schema) (default : Value) (rest : List Field) :
    loadFields (.mk name schema (some default) true :: rest) path entries = do
      let value ← loadSetting schema default path name entries
      let others ← loadFields rest path entries
      return (name, value) :: others := by
  simp only [loadFields, loadSetting, if_true]
  cases hgiven : lookup entries name with
  | none => rfl
  | some given =>
    simp only [loadField, loadGiven]
    cases load schema s!"{path}.{name}" given <;> rfl

theorem loadFields_nil : loadFields [] path entries = pure [] := by
  rw [loadFields]
  rfl

theorem load_settings (h : value.entries? = some entries) :
    load settingsSchema path value = do
      checkKeys path settingNames entries
      let timeout ← loadSetting (.union [.float, .null]) .null path "timeout" entries
      let seed ← loadSetting (.union [.int, .null]) .null path "seed" entries
      let named ← loadSetting (.mapping .text .text) (.mapping []) path "variables" entries
      return .record "OccConfig" [("timeout", timeout), ("seed", seed), ("variables", named)] := by
  rw [settingsSchema, load]
  simp only [h, loadFields_cons, loadFields_nil, bind_assoc, pure_bind]
  rfl

structure Loads (entries : List (Value × Value)) (timeout seed named : Value) : Prop where
  known : ∀ entry ∈ entries, ∃ name ∈ settingNames, entry.1 = .text name
  timeout : LoadsTimeout (lookup entries "timeout") timeout
  seed : LoadsSeed (lookup entries "seed") seed
  named : LoadsVariables (lookup entries "variables") named

variable {timeout seed named : Value}

theorem load_settings_eq_ok_iff (h : value.entries? = some entries) :
    load settingsSchema path value = .ok loaded ↔
      ∃ timeout seed named, Loads entries timeout seed named ∧
        loaded = .record "OccConfig"
          [("timeout", timeout), ("seed", seed), ("variables", named)] := by
  simp only [load_settings h, loadSetting, bind_eq_ok, loadGiven_timeout_eq_ok_iff,
    loadGiven_seed_eq_ok_iff, loadGiven_variables_eq_ok_iff]
  constructor
  · rintro ⟨⟨⟩, hknown, timeout, htimeout, seed, hseed, named, hnamed, hloaded⟩
    exact ⟨timeout, seed, named,
      ⟨(checkKeys_eq_ok_iff _).mp hknown, htimeout, hseed, hnamed⟩, (Except.ok.inj hloaded).symm⟩
  · rintro ⟨timeout, seed, named, hloads, rfl⟩
    exact ⟨(), (checkKeys_eq_ok_iff _).mpr hloads.known, timeout, hloads.timeout, seed, hloads.seed,
      named, hloads.named, rfl⟩

namespace Loads

theorem valid (h : Loads entries timeout seed named) : Valid entries where
  known := h.known
  timeout v hv := by
    obtain ⟨hnone | hnull, -⟩ | ⟨n, x, hn, -⟩ := h.timeout
    · simp [hnone] at hv
    · exact .inl (Option.some.inj (hv.symm.trans hnull))
    · exact .inr ⟨n, Option.some.inj (hv.symm.trans hn)⟩
  seed v hv := by
    obtain ⟨hnone | hnull, -⟩ | ⟨n, hn, -⟩ := h.seed
    · simp [hnone] at hv
    · exact .inl (Option.some.inj (hv.symm.trans hnull))
    · exact .inr ⟨n, Option.some.inj (hv.symm.trans hn)⟩
  named v hv := by
    obtain ⟨hnone, -⟩ | ⟨value, constants, hvalue, hentries, -⟩ := h.named
    · simp [hnone] at hv
    · obtain rfl : v = value := Option.some.inj (hv.symm.trans hvalue)
      exact ⟨constants, hentries⟩

theorem inRange (h : Loads entries timeout seed named)
    (hseed : ∀ n, lookup entries "seed" = some (.number n) → n.isWritable = true) :
    InRange entries where
  timeout n hn := by
    obtain ⟨hnone | hnull, -⟩ | ⟨m, x, hm, hx, -⟩ := h.timeout
    · simp [hnone] at hn
    · simp [hnull] at hn
    · obtain rfl : n = m := Value.number.inj (Option.some.inj (hn.symm.trans hm))
      simp [hx]
  seed := hseed

theorem isWritable_iff (h : Loads entries timeout seed named) :
    (Value.record "OccConfig"
        [("timeout", timeout), ("seed", seed), ("variables", named)]).isWritable = true ↔
      ∀ n, lookup entries "seed" = some (.number n) → n.isWritable = true := by
  have htimeout : timeout.isWritable = true := by
    obtain ⟨-, rfl⟩ | ⟨n, x, -, -, rfl⟩ := h.timeout <;> rfl
  have hnamed : named.isWritable = true := by
    obtain ⟨-, rfl⟩ | ⟨value, constants, -, -, rfl⟩ := h.named
    · rfl
    · obtain ⟨more, hmore⟩ := exists_collect_textEntries [] constants
      rw [Value.isWritable, ← List.map_nil, ← textEntries, hmore]
      exact entriesWritable_textEntries more
  have hseed : seed.isWritable = true ↔
      ∀ n, lookup entries "seed" = some (.number n) → n.isWritable = true := by
    obtain ⟨hnone | hnull, rfl⟩ | ⟨n, hn, rfl⟩ := h.seed
    · simp [hnone, Value.isWritable]
    · simp [hnull, Value.isWritable]
    · simp [hn, Value.isWritable, Value.int]
  simp [Value.isWritable, Value.fieldsWritable, htimeout, hnamed, hseed]

theorem describes (h : Loads entries timeout seed named) :
    Describes entries (.ofValue (.record "OccConfig"
      [("timeout", timeout), ("seed", seed), ("variables", named)])) where
  timeout := by
    obtain ⟨hnone | hnull, rfl⟩ | ⟨n, x, hn, hx, rfl⟩ := h.timeout
    · rw [hnone]; rfl
    · rw [hnull]; rfl
    · simp only [hn, hx]; rfl
  seed := by
    obtain ⟨hnone | hnull, rfl⟩ | ⟨n, hn, rfl⟩ := h.seed
    · rw [hnone]; rfl
    · rw [hnull]; rfl
    · rw [hn]; rfl
  unnamed hunnamed := by
    obtain ⟨-, rfl⟩ | ⟨value, constants, hvalue, -⟩ := h.named
    · rfl
    · simp [hunnamed] at hvalue
  constants v constants hv hentries hnodup := by
    obtain ⟨hnone, -⟩ | ⟨value, others, hvalue, hothers, rfl⟩ := h.named
    · simp [hnone] at hv
    · obtain rfl : v = value := Option.some.inj (hv.symm.trans hvalue)
      have hsame : collect (textEntries []) others = textEntries constants := by
        have hentries : textEntries others = textEntries constants :=
          Option.some.inj (hothers.symm.trans hentries)
        have hothers : others = constants := by
          rw [← variablesOf_textEntries others, hentries, variablesOf_textEntries]
        rw [hothers, collect_of_nodup [] constants hnodup, List.nil_append]
      change Settings.variablesOf (.mapping (collect (textEntries []) others)) = constants
      rw [hsame, variablesOf_textEntries]

theorem nodup (h : Loads entries timeout seed named) :
    ((Settings.ofValue (.record "OccConfig"
      [("timeout", timeout), ("seed", seed), ("variables", named)])).constants.map
        Prod.fst).Nodup := by
  obtain ⟨-, rfl⟩ | ⟨value, constants, -, -, rfl⟩ := h.named
  · exact List.nodup_nil
  · obtain ⟨more, hmore⟩ := exists_collect_textEntries [] constants
    have hnone : KeysApart (textEntries []) := List.Pairwise.nil
    have hapart := keysApart_collect hnone constants
    change (Settings.variablesOf (.mapping (collect (textEntries []) constants))).map _ |>.Nodup
    rw [hmore] at hapart ⊢
    rw [variablesOf_textEntries]
    exact keysApart_textEntries_iff.mp hapart

end Loads

theorem exists_loadsTimeout (hvalid : Valid entries) (hrange : InRange entries) :
    ∃ timeout, LoadsTimeout (lookup entries "timeout") timeout := by
  rcases hgiven : lookup entries "timeout" with _ | v
  · exact ⟨_, .inl ⟨.inl rfl, rfl⟩⟩
  · obtain rfl | ⟨n, rfl⟩ := hvalid.timeout v hgiven
    · exact ⟨_, .inl ⟨.inr rfl, rfl⟩⟩
    · rcases hx : n.toFloat? with _ | x
      · exact absurd hx (hrange.timeout n hgiven)
      · exact ⟨_, .inr ⟨n, x, rfl, hx, rfl⟩⟩

theorem exists_loadsSeed (hvalid : Valid entries) :
    ∃ seed, LoadsSeed (lookup entries "seed") seed := by
  rcases hgiven : lookup entries "seed" with _ | v
  · exact ⟨_, .inl ⟨.inl rfl, rfl⟩⟩
  · obtain rfl | ⟨n, rfl⟩ := hvalid.seed v hgiven
    · exact ⟨_, .inl ⟨.inr rfl, rfl⟩⟩
    · exact ⟨_, .inr ⟨n, rfl, rfl⟩⟩

theorem exists_loadsVariables (hvalid : Valid entries) :
    ∃ named, LoadsVariables (lookup entries "variables") named := by
  rcases hgiven : lookup entries "variables" with _ | v
  · exact ⟨_, .inl ⟨rfl, rfl⟩⟩
  · obtain ⟨constants, hconstants⟩ := hvalid.named v hgiven
    exact ⟨_, .inr ⟨v, constants, rfl, hconstants, rfl⟩⟩

theorem exists_loads (hvalid : Valid entries) (hrange : InRange entries) :
    ∃ timeout seed named, Loads entries timeout seed named := by
  obtain ⟨timeout, htimeout⟩ := exists_loadsTimeout hvalid hrange
  obtain ⟨seed, hseed⟩ := exists_loadsSeed hvalid
  obtain ⟨named, hnamed⟩ := exists_loadsVariables hvalid
  exact ⟨timeout, seed, named, hvalid.known, htimeout, hseed, hnamed⟩

theorem loadSetting_endsWell {schema : Schema} {default : Value} {name : String}
    (h : ∀ v, EndsWell v s!"{path}.{name}" (load schema s!"{path}.{name}" v))
    (hvalue : value.entries? = some entries) :
    EndsWell value path (loadSetting schema default path name entries) := by
  rw [loadSetting]
  rcases hgiven : lookup entries name with _ | v
  · exact .ok default
  · obtain ⟨key, hentry⟩ := mem_of_lookup hgiven
    exact .of_part (Value.isPart_item hvalue hentry) (prefix_append_append path _ _) (h v)

theorem orNull_endsWell {schema : Schema} (h : EndsWell value path (load schema path value)) :
    EndsWell value path (load (.union [schema, .null]) path value) := by
  have hnull : EndsWell value path (load .null path value) := expect_endsWell _ _
  refine loadUnion_endsWell _ ?_ []
  simpa only [List.forall_mem_cons, List.not_mem_nil, false_imp_iff, implies_true, and_true]
    using ⟨h, hnull⟩

theorem load_texts_endsWell (path : String) (value : Value) :
    EndsWell value path (load (.mapping .text .text) path value) := by
  rcases hvalue : value.entries? with _ | entries
  · simp only [load, hvalue]
    exact .refused _
  · rw [load_mapping hvalue]
    refine .map _ (loadEntries_endsWell hvalue path ?_ ?_ ?_ entries (fun _ h => h) [])
    · exact fun entry _ below => expect_endsWell _ _
    · intro entry _ below loaded hloaded hlong
      obtain rfl := eq_of_expect hloaded
      exact Value.holdsLong_of_not_isWritable _ hlong
    · exact fun entry _ below => expect_endsWell _ _

theorem load_settings_endsWell (h : value.entries? = some entries) :
    EndsWell value path (load settingsSchema path value) := by
  rw [load_settings h]
  refine .bind (checkKeys_endsWell h path _) fun _ _ => ?_
  have hfloat (path : String) (v : Value) : EndsWell v path (load .float path v) :=
    loadFloat_endsWell path v
  have hint (path : String) (v : Value) : EndsWell v path (load .int path v) := expect_endsWell _ _
  refine .bind (loadSetting_endsWell (fun v => orNull_endsWell (hfloat _ v)) h) fun timeout _ => ?_
  refine .bind (loadSetting_endsWell (fun v => orNull_endsWell (hint _ v)) h) fun seed _ => ?_
  refine .bind (loadSetting_endsWell (fun v => load_texts_endsWell _ v) h) fun named _ => ?_
  exact .ok _

variable {document : String → Except Yaml.DocumentError Value} {source : Source} {s : Settings}
  {e : SettingsError}

theorem settingsOfValue_of_isEmpty (h : value.isEmpty = true) :
    settingsOfValue source value = .ok .default := by
  rw [settingsOfValue, if_pos h]
  rfl

theorem settingsOfValue_of_entries? (hempty : value.isEmpty = false)
    (h : value.entries? = some entries) :
    settingsOfValue source value =
      (load settingsSchema source.path.name value).mapError .load >>= fun loaded =>
        if loaded.isWritable then .ok (.ofValue loaded) else .error (.load .tooLong) := by
  rw [settingsOfValue, hempty]
  simp only [Bool.false_eq_true, if_false, h]
  rfl

theorem eq_nil_of_isEmpty (hempty : value.isEmpty = true) (h : value.entries? = some entries) :
    entries = [] := by
  cases value <;> cases h <;> simpa [Value.isEmpty] using hempty

theorem settingsOfValue_of_valid (h : value.entries? = some entries) (hvalid : Valid entries)
    (hrange : InRange entries) :
    ∃ s, settingsOfValue source value = .ok s ∧ Describes entries s := by
  obtain ⟨timeout, seed, named, hloads⟩ := exists_loads hvalid hrange
  rcases hempty : value.isEmpty with _ | _
  · have hload : load settingsSchema source.path.name value = _ :=
      (load_settings_eq_ok_iff h).mpr ⟨timeout, seed, named, hloads, rfl⟩
    refine ⟨_, ?_, hloads.describes⟩
    rw [settingsOfValue_of_entries? hempty h, hload]
    exact if_pos (hloads.isWritable_iff.mpr hrange.seed)
  · obtain rfl := eq_nil_of_isEmpty hempty h
    exact ⟨_, settingsOfValue_of_isEmpty hempty, rfl, rfl, fun _ => rfl, nofun⟩

/-- What becomes of a mapping that is not empty. -/
theorem settingsOfValue_cases (source : Source) (hempty : value.isEmpty = false)
    (h : value.entries? = some entries) :
    (Valid entries ∧ InRange entries ∧ ∃ s, settingsOfValue source value = .ok s) ∨
    (∃ e, settingsOfValue source value = .error (.load e) ∧
      Explained value source.path.name e) := by
  rw [settingsOfValue_of_entries? hempty h]
  rcases hload : load settingsSchema source.path.name value with e | loaded
  · exact .inr ⟨e, rfl, load_settings_endsWell h e hload⟩
  · obtain ⟨timeout, seed, named, hloads, hloaded⟩ := (load_settings_eq_ok_iff h).mp hload
    have hwritten := hloads.isWritable_iff
    rw [← hloaded] at hwritten
    by_cases hwritable : loaded.isWritable = true
    · exact .inl ⟨hloads.valid, hloads.inRange (hwritten.mp hwritable), _, if_pos hwritable⟩
    · obtain ⟨n, hn, hlong⟩ : ∃ n, lookup entries "seed" = some (.number n) ∧
          n.isWritable = false := by simpa using mt hwritten.mpr hwritable
      obtain ⟨key, hentry⟩ := mem_of_lookup hn
      exact .inr ⟨.tooLong, if_neg hwritable, .tooLong ⟨n, Value.isPart_item h hentry, hlong⟩⟩

theorem settingsOfValue_of_no_entries (hempty : value.isEmpty = false)
    (h : value.entries? = none) :
    settingsOfValue source value = .error (.notMapping source.shown.toString) := by
  rw [settingsOfValue, hempty]
  simp only [Bool.false_eq_true, if_false, h]

theorem settingsIn_of_document {fs : Files.FileSystem} {path root : Option Files.Path}
    {text : String} (hsource : source? fs path root = .ok (some source))
    (htext : fs.read source.path = .ok text) (hdocument : document text = .ok value) :
    settingsIn document fs path root = settingsOfValue source value := by
  rw [settingsIn, hsource]
  change (fs.read source.path).mapError .file >>= settingsOf document source = _
  rw [htext]
  change (document text).mapError .document >>= settingsOfValue source = _
  rw [hdocument]
  rfl

/-- What the value of a document decides: an empty one gives the defaults, a valid mapping in range
gives the settings that it describes, anything but a mapping is refused, and so is every other mapping,
unless a number in it is out of range or its keys cannot be compared. -/
theorem settingsIn_decides_document {fs : Files.FileSystem} {path root : Option Files.Path}
    {text : String} (hsource : source? fs path root = .ok (some source))
    (htext : fs.read source.path = .ok text)
    (hdocument : document text = .ok value) :
    (value.isEmpty = true → settingsIn document fs path root = .ok .default) ∧
    (value.isEmpty = false → value.entries? = none →
      ∃ e, settingsIn document fs path root = .error e ∧ e.name = "ConfigLoadError") ∧
    (∀ entries, value.entries? = some entries → Valid entries → InRange entries →
      ∃ s, settingsIn document fs path root = .ok s ∧ Describes entries s) ∧
    (∀ entries, value.entries? = some entries → ¬(Valid entries ∧ InRange entries) →
      ∃ e, settingsIn document fs path root = .error e ∧
        (e.name = "ConfigLoadError" ∨
          (e = .load .tooLarge ∧ ∃ n, Value.IsPart (.number n) value ∧ n.toFloat? = none) ∨
          (e = .load .tooLong ∧ ∃ n, Value.IsPart (.number n) value ∧ n.isWritable = false) ∨
          (e = .load .unsortable ∧ ∃ part entries, Value.IsPart part value ∧
            part.entries? = some entries ∧ Unordered (entries.map Prod.fst)))) := by
  rw [settingsIn_of_document hsource htext hdocument]
  refine ⟨settingsOfValue_of_isEmpty, ?_, ?_, ?_⟩
  · intro hempty hentries
    exact ⟨_, settingsOfValue_of_no_entries hempty hentries, rfl⟩
  · intro entries hentries hvalid hrange
    exact settingsOfValue_of_valid hentries hvalid hrange
  · intro entries hentries hinvalid
    have hempty : value.isEmpty = false := by
      rw [Bool.eq_false_iff]
      intro hempty
      obtain rfl := eq_nil_of_isEmpty hempty hentries
      exact hinvalid ⟨⟨List.forall_mem_nil _, nofun, nofun, nofun⟩, ⟨nofun, nofun⟩⟩
    obtain ⟨hvalid, hrange, -⟩ | ⟨e, he, hreason⟩ :=
      settingsOfValue_cases source hempty hentries
    · exact absurd ⟨hvalid, hrange⟩ hinvalid
    · refine ⟨.load e, he, ?_⟩
      cases hreason with
      | misfit => exact .inl rfl
      | tooLarge hpart hlarge => exact .inr (.inl ⟨rfl, _, hpart, hlarge⟩)
      | tooLong hlong => exact .inr (.inr (.inl ⟨rfl, hlong⟩))
      | unsortable hpart hkeys hunordered =>
        exact .inr (.inr (.inr ⟨rfl, _, _, hpart, hkeys, hunordered⟩))

/-- Settings are the defaults, or they are made of the three values that are loaded. -/
theorem loads_of_settingsOfValue (h : settingsOfValue source value = .ok s) :
    s = .default ∨ ∃ entries timeout seed named, Loads entries timeout seed named ∧
      s = .ofValue (.record "OccConfig"
        [("timeout", timeout), ("seed", seed), ("variables", named)]) := by
  rcases hempty : value.isEmpty with _ | _
  · rcases hentries : value.entries? with _ | entries
    · rw [settingsOfValue_of_no_entries hempty hentries] at h
      cases h
    · rw [settingsOfValue_of_entries? hempty hentries] at h
      obtain ⟨loaded, hload, h⟩ := bind_eq_ok.mp h
      obtain ⟨timeout, seed, named, hloads, rfl⟩ :=
        (load_settings_eq_ok_iff hentries).mp (mapError_eq_ok_iff.mp hload)
      split at h
      · exact .inr ⟨entries, timeout, seed, named, hloads, (Except.ok.inj h).symm⟩
      · cases h
  · rw [settingsOfValue_of_isEmpty hempty] at h
    exact .inl (Except.ok.inj h).symm

theorem loads_of_settingsIn {fs : Files.FileSystem} {path root : Option Files.Path}
    (h : settingsIn document fs path root = .ok s) :
    s = .default ∨ ∃ entries timeout seed named, Loads entries timeout seed named ∧
      s = .ofValue (.record "OccConfig"
        [("timeout", timeout), ("seed", seed), ("variables", named)]) := by
  obtain ⟨_ | source, -, h⟩ := bind_eq_ok.mp h
  · exact .inl (Except.ok.inj h).symm
  · obtain ⟨text, -, h⟩ := bind_eq_ok.mp h
    obtain ⟨value, -, h⟩ := bind_eq_ok.mp h
    exact loads_of_settingsOfValue h

theorem nodup_of_settingsIn {fs : Files.FileSystem} {path root : Option Files.Path}
    (h : settingsIn document fs path root = .ok s) : (s.constants.map Prod.fst).Nodup := by
  obtain rfl | ⟨entries, timeout, seed, named, hloads, rfl⟩ := loads_of_settingsIn h
  · exact List.nodup_nil
  · exact hloads.nodup

theorem exists_float_of_settingsIn {fs : Files.FileSystem} {path root : Option Files.Path}
    (h : settingsIn document fs path root = .ok s) {timeout : Number} (ht : s.timeout = some timeout) :
    ∃ x, timeout = .float x := by
  obtain rfl | ⟨entries, _, _, _, hloads, rfl⟩ := loads_of_settingsIn h
  · cases ht
  · have htimeout := ht.symm.trans hloads.describes.timeout
    split at htimeout
    · obtain ⟨x, -, hx⟩ := Option.map_eq_some_iff.mp htimeout.symm
      exact ⟨x, hx.symm⟩
    · cases htimeout

def holding (text : String) : Files.FileSystem :=
  ⟨⟨0, []⟩, fun _ => .file text.toUTF8.data.toList⟩

def namedSource : Source := ⟨⟨0, ["a"]⟩, ⟨0, ["a"]⟩⟩

def isUnder (name : String) (n : Int) : Value → Bool
  | .mapping [(.text given, .number (.int m))] => given = name && m = n
  | _ => false

theorem eq_of_isUnder {name : String} {n : Int} (h : isUnder name n value = true) :
    value = .mapping [(.text name, .int n)] := by
  unfold isUnder at h
  split at h
  · obtain ⟨rfl, rfl⟩ := by simpa using h
    rfl
  · cases h

theorem load_five_milliseconds :
    Yaml.load documentLevels "timeout: 5\n" = .ok (.mapping [(.text "timeout", .int 5)]) := by
  -- Values cannot be compared as wholes, since they are nested: so the one that is met is tested.
  have h : (Yaml.load documentLevels "timeout: 5\n").toOption.any (isUnder "timeout" 5) = true := by
    decide +kernel
  rcases hload : Yaml.load documentLevels "timeout: 5\n" with e | value
  · rw [hload] at h
    cases h
  · rw [hload] at h
    exact congrArg _ (eq_of_isUnder h)

/-- A file with nothing but a timeout. -/
theorem five_milliseconds_loaded :
    source? (holding "timeout: 5\n") (some namedSource.path) none = .ok (some namedSource) ∧
      (holding "timeout: 5\n").read namedSource.path = .ok "timeout: 5\n" ∧
      Yaml.load documentLevels "timeout: 5\n" = .ok (.mapping [(.text "timeout", .int 5)]) ∧
      ∃ s, loadSettings (holding "timeout: 5\n") (some namedSource.path) none = .ok s ∧
        Describes [(.text "timeout", .int 5)] s := by
  have hvalid : Valid [(.text "timeout", .int 5)] := by
    refine ⟨by simp [settingNames], ?_, nofun, nofun⟩
    rintro _ ⟨⟩
    exact .inr ⟨.int 5, rfl⟩
  have hrange : InRange [(.text "timeout", .int 5)] := by
    refine ⟨?_, nofun⟩
    rintro _ ⟨⟩
    decide +kernel
  exact ⟨rfl, rfl, load_five_milliseconds,
    (settingsIn_decides_document rfl rfl load_five_milliseconds).2.2.1 _ rfl hvalid hrange⟩

/-- A document that is no mapping is taken for an empty one if its value is as good as nothing. -/
theorem false_document_loaded :
    Yaml.load documentLevels "false\n" = .ok (.bool false) ∧
      loadSettings (holding "false\n") (some namedSource.path) none = .ok .default := by
  have hload : Yaml.load documentLevels "false\n" = .ok (.bool false) := by
    with_unfolding_all rfl
  refine ⟨hload, ?_⟩
  rw [loadSettings, settingsIn_of_document (show source? _ _ _ = .ok (some namedSource) from rfl) rfl hload]
  exact settingsOfValue_of_isEmpty rfl

end TagTemplate.Config
