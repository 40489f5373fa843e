import Mathlib.Data.List.TakeWhile
import TagTemplate.Proofs.CommandLine.Spelling
import TagTemplate.Proofs.Config.Documents
import TagTemplate.Proofs.Evaluation.Bindings

/-! Which of several settings counts. Built-in tags stand before the variables of the command line, of
which the last one of a name counts, and these before the variables of the configuration; the timeout
and the seed are those of the flags where they are given. A variable without an equals sign ends the
run before anything is rendered. -/
namespace TagTemplate.CommandLine
open Evaluation

variable {H σ : Type} {state : Option Int → σ} {fs : Files.FileSystem} {i j : Invocation}
  {settings others : List Setting} {arguments front back specs : List String}
  {spec name text : String} {config : Config.Settings}

def valuesOf (flag : Flag) (settings : List Setting) : List String :=
  settings.filterMap fun s => if s.flag = flag then s.value else none

structure Invocation.SetBy (i : Invocation) (settings : List Setting) : Prop where
  vars : i.vars = valuesOf .var settings
  timeout : i.timeout = (valuesOf .timeout settings).getLast?.bind Numeral.float?
  seed : i.seed = (valuesOf .seed settings).getLast?.bind Numeral.integer?

theorem setBy_empty : Invocation.empty.SetBy [] :=
  ⟨rfl, rfl, rfl⟩

theorem Invocation.SetBy.rendering (h : i.SetBy settings) (file eval : Option String) :
    (i.rendering file eval).SetBy settings :=
  ⟨h.vars, h.timeout, h.seed⟩

theorem valuesOf_append (flag : Flag) (settings others : List Setting) :
    valuesOf flag (settings ++ others) = valuesOf flag settings ++ valuesOf flag others :=
  List.filterMap_append

theorem Invocation.SetBy.append_other {s : Setting} (h : i.SetBy settings)
    (hsame : j.vars = i.vars ∧ j.timeout = i.timeout ∧ j.seed = i.seed)
    (hs : valuesOf .var [s] = [] ∧ valuesOf .timeout [s] = [] ∧ valuesOf .seed [s] = []) :
    j.SetBy (settings ++ [s]) := by
  obtain ⟨hvars, htimeout, hseed⟩ := hsame
  constructor
  · rw [hvars, valuesOf_append, hs.1, List.append_nil, h.vars]
  · rw [htimeout, valuesOf_append, hs.2.1, List.append_nil, h.timeout]
  · rw [hseed, valuesOf_append, hs.2.2, List.append_nil, h.seed]

theorem Invocation.SetBy.apply {s : Setting} (h : i.SetBy settings) (hs : s.apply i = .ok j) :
    j.SetBy (settings ++ [s]) := by
  obtain ⟨flag, value⟩ := s
  cases value with
  | none =>
    have hsame : j.vars = i.vars ∧ j.timeout = i.timeout ∧ j.seed = i.seed := by
      cases flag <;> cases hs <;> exact ⟨rfl, rfl, rfl⟩
    exact h.append_other hsame (by simp [valuesOf])
  | some value =>
    cases flag with
    | var =>
      cases hs
      refine ⟨?_, ?_, ?_⟩ <;> rw [valuesOf_append]
      · exact congrArg (· ++ [value]) h.vars
      · simpa [valuesOf] using h.timeout
      · simpa [valuesOf] using h.seed
    | timeout =>
      simp only [Setting.apply, setValue] at hs
      split at hs
      · next x hx =>
        cases hs
        refine ⟨?_, ?_, ?_⟩ <;> rw [valuesOf_append]
        · simpa [valuesOf] using h.vars
        · simpa [valuesOf] using hx.symm
        · simpa [valuesOf] using h.seed
      · cases hs
    | seed =>
      simp only [Setting.apply, setValue] at hs
      split at hs
      · next n hn =>
        cases hs
        refine ⟨?_, ?_, ?_⟩ <;> rw [valuesOf_append]
        · simpa [valuesOf] using h.vars
        · simpa [valuesOf] using h.timeout
        · simpa [valuesOf] using hn.symm
      · cases hs
    | _ =>
      cases hs
      exact h.append_other ⟨rfl, rfl, rfl⟩ (by simp [valuesOf])

theorem Invocation.SetBy.applied (h : i.SetBy settings)
    (hothers : CommandLine.applied others i = .ok j) : j.SetBy (settings ++ others) := by
  induction others generalizing settings i with
  | nil =>
    cases hothers
    rwa [List.append_nil]
  | cons s rest ih =>
    rw [CommandLine.applied, List.foldlM_cons] at hothers
    obtain ⟨k, hk, hrest⟩ := Config.bind_eq_ok.mp hothers
    rw [List.append_cons]
    exact ih (h.apply hk) hrest

theorem bind_ne_error {ε α β : Type} {x : Except ε α} {g : α → Except ε β} {e : ε}
    (hx : x ≠ .error e) (hg : ∀ a, g a ≠ .error e) : x >>= g ≠ .error e := by
  cases x with
  | error e' => exact fun h => hx (congrArg Except.error (Except.error.inj h))
  | ok a => exact hg a

theorem apply_ne_run (s : Setting) (i j : Invocation) :
    s.apply i ≠ .error (.request (.run j)) := by
  obtain ⟨flag, value⟩ := s
  intro h
  cases value with
  | none => cases flag <;> cases h
  | some value =>
    cases flag with
    | timeout =>
      simp only [Setting.apply, setValue] at h
      split at h <;> cases h
    | seed =>
      simp only [Setting.apply, setValue] at h
      split at h <;> cases h
    | _ => cases h

theorem applied_ne_run (settings : List Setting) (i j : Invocation) :
    applied settings i ≠ .error (.request (.run j)) := by
  induction settings generalizing i with
  | nil => nofun
  | cons s rest ih =>
    rw [applied, List.foldlM_cons]
    exact bind_ne_error (apply_ne_run s i j) ih

theorem eq_ok_of_requested {r : Except Stop Invocation} (hr : r ≠ .error (.request (.run i)))
    (h : requested r = .ok (.run i)) : r = .ok i := by
  rcases r with (request | e) | j
  · cases h
    exact absurd rfl hr
  · cases h
  · cases h
    rfl

theorem setBy_of_request {file : List String} (hfront : Gives front settings)
    (hback : Gives back others)
    (hfile : file = [] ∨ ∃ name, file = [name] ∧ wordOf name = .ok (.argument name))
    (hrequest : request (front ++ file ++ back) = .ok (.run i)) : i.SetBy (settings ++ others) := by
  obtain rfl | ⟨name, rfl, hname⟩ := hfile
  · rw [List.append_nil, request_of_gives (hfront.append hback)] at hrequest
    exact setBy_empty.applied (eq_ok_of_requested (applied_ne_run _ _ i) hrequest)
  · rw [List.append_assoc, List.singleton_append, request_of_file hfront hback hname] at hrequest
    have hboth := eq_ok_of_requested
      (bind_ne_error (applied_ne_run _ _ i) fun _ => applied_ne_run _ _ i) hrequest
    obtain ⟨j, hj, hi⟩ := Config.bind_eq_ok.mp hboth
    exact ((setBy_empty.applied hj).rendering _ _).applied hi

/-- The text behind the first equals sign is assigned to the name in front of it, which may have spaces
around it. -/
def Assigns (spec name text : String) : Prop :=
  ∃ front, spec = front ++ "=" ++ text ∧ '=' ∉ front.toList ∧ Text.strip front = name

theorem Assigns.unique {name' text' : String} (h : Assigns spec name text)
    (h' : Assigns spec name' text') : name = name' ∧ text = text' := by
  obtain ⟨front, rfl, hfront, rfl⟩ := h
  obtain ⟨front', hspec, hfront', rfl⟩ := h'
  have hsplit := splitAssignment?_assigned hfront text
  rw [hspec, splitAssignment?_assigned hfront'] at hsplit
  cases hsplit
  exact ⟨rfl, rfl⟩

theorem exists_assigns (h : '=' ∈ spec.toList) :
    ∃ name text, variableOf spec = .ok (name, text) ∧ Assigns spec name text := by
  obtain ⟨front, back, hspec, hfront⟩ := List.eq_append_cons_of_mem h
  have hspec : spec = String.ofList front ++ "=" ++ String.ofList back := by
    apply String.toList_injective
    simp [hspec]
  have hname : '=' ∉ (String.ofList front).toList := by rwa [String.toList_ofList]
  refine ⟨Text.strip (String.ofList front), String.ofList back, ?_, _, hspec, hname, rfl⟩
  rw [variableOf, hspec, splitAssignment?_assigned hname]

theorem variableOf_of_notMem (h : '=' ∉ spec.toList) :
    variableOf spec = .error (.badVariable spec) := by
  have hnone : spec.toList.dropWhile (· != '=') = [] := by
    rw [List.dropWhile_eq_nil_iff]
    intro c hc
    exact bne_iff_ne.mpr fun heq => h (heq ▸ hc)
  unfold variableOf splitAssignment?
  simp only [hnone]

/-- Each of the variables assigns something, or the first one that does not is told. -/
theorem mapM_variableOf_cases (specs : List String) :
    ((∀ spec ∈ specs, '=' ∈ spec.toList) ∧ ∃ constants, specs.mapM variableOf = .ok constants ∧
      List.Forall₂ (fun spec constant => Assigns spec constant.1 constant.2) specs constants) ∨
    ∃ before bad after, specs = before ++ bad :: after ∧ (∀ spec ∈ before, '=' ∈ spec.toList) ∧
      '=' ∉ bad.toList ∧ specs.mapM variableOf = .error (.badVariable bad) := by
  induction specs with
  | nil => exact .inl ⟨List.forall_mem_nil _, [], rfl, .nil⟩
  | cons spec rest ih =>
    rw [List.mapM_cons]
    by_cases hspec : '=' ∈ spec.toList
    · obtain ⟨name, text, hvariable, hassigns⟩ := exists_assigns hspec
      rw [hvariable]
      obtain ⟨hothers, constants, hrest, hall⟩ | ⟨before, bad, after, rfl, hbefore, hbad, hrest⟩ := ih
      · refine .inl ⟨List.forall_mem_cons.mpr ⟨hspec, hothers⟩, (name, text) :: constants, ?_,
          .cons hassigns hall⟩
        rw [hrest]
        rfl
      · refine .inr ⟨spec :: before, bad, after, rfl, ?_, hbad, ?_⟩
        · exact List.forall_mem_cons.mpr ⟨hspec, hbefore⟩
        · rw [hrest]
          rfl
    · refine .inr ⟨[], spec, rest, rfl, List.forall_mem_nil _, hspec, ?_⟩
      rw [variableOf_of_notMem hspec]
      rfl

/-- Built-in tags stand before the variables of the command line, where the last one counts, and these
before the constants of the configuration. -/
inductive StandsFor (specs : List String) (constants : List (String × String)) (name : String) :
    Option (Binding H) → Prop where
  | builtin {binding : Binding H} : (name, binding) ∈ Bindings.builtins →
    StandsFor specs constants name (some binding)
  | given {before after : List String} {spec text : String} :
    name ∉ (Bindings.builtins (H := H)).map Prod.fst → specs = before ++ spec :: after →
    Assigns spec name text → (∀ other ∈ after, ∀ text', ¬Assigns other name text') →
    StandsFor specs constants name (some (.constant text))
  | configured {text : String} :
    name ∉ (Bindings.builtins (H := H)).map Prod.fst →
    (∀ spec ∈ specs, ∀ text', ¬Assigns spec name text') → (name, text) ∈ constants →
    StandsFor specs constants name (some (.constant text))
  | nothing :
    name ∉ (Bindings.builtins (H := H)).map Prod.fst →
    (∀ spec ∈ specs, ∀ text', ¬Assigns spec name text') → name ∉ constants.map Prod.fst →
    StandsFor specs constants name none

variable {constants configured : List (String × String)}

theorem eq_of_last {α : Type} {p : α → Prop} {before before' after after' : List α} {a b : α}
    (h : before ++ a :: after = before' ++ b :: after') (ha : p a) (hb : p b)
    (hafter : ∀ c ∈ after, ¬p c) (hafter' : ∀ c ∈ after', ¬p c) : a = b := by
  obtain ⟨more, -, hsplit⟩ | ⟨more, -, hsplit⟩ := List.append_eq_append_iff.mp h
  · cases more with
    | nil => exact (List.cons.inj hsplit).1
    | cons c rest =>
      have hrest : after = rest ++ b :: after' := (List.cons.inj hsplit).2
      exact absurd hb (hafter b (hrest ▸ List.mem_append_cons_self))
  · cases more with
    | nil => exact (List.cons.inj hsplit).1.symm
    | cons c rest =>
      have hrest : after' = rest ++ a :: after := (List.cons.inj hsplit).2
      exact absurd ha (hafter' a (hrest ▸ List.mem_append_cons_self))

theorem eq_of_mem_of_nodup {α β : Type} {entries : List (α × β)} {a : α} {b b' : β}
    (hnodup : (entries.map Prod.fst).Nodup) (h : (a, b) ∈ entries) (h' : (a, b') ∈ entries) :
    b = b' :=
  congrArg Prod.snd (List.inj_on_of_nodup_map hnodup h h' rfl)

theorem nodup_builtins : ((Bindings.builtins (H := H)).map Prod.fst).Nodup := by
  simp [Bindings.builtins]

theorem StandsFor.unique {a b : Option (Binding H)} (hnodup : (constants.map Prod.fst).Nodup)
    (h : StandsFor specs constants name a) (h' : StandsFor specs constants name b) : a = b := by
  cases h with
  | builtin hmem =>
    cases h' with
    | builtin hmem' => exact congrArg some (eq_of_mem_of_nodup nodup_builtins hmem hmem')
    | given hno | configured hno | nothing hno => exact absurd (List.mem_map_of_mem hmem) hno
  | given hno hspecs hassigns hafter =>
    cases h' with
    | builtin hmem' => exact absurd (List.mem_map_of_mem hmem') hno
    | given _ hspecs' hassigns' hafter' =>
      obtain rfl := eq_of_last (p := fun spec => ∃ text, Assigns spec name text)
        (hspecs.symm.trans hspecs') ⟨_, hassigns⟩ ⟨_, hassigns'⟩
        (fun spec hspec => not_exists.mpr (hafter spec hspec))
        fun spec hspec => not_exists.mpr (hafter' spec hspec)
      rw [(hassigns.unique hassigns').2]
    | configured _ hnone | nothing _ hnone =>
      exact absurd hassigns (hnone _ (hspecs ▸ List.mem_append_cons_self) _)
  | configured hno hnone hmem =>
    cases h' with
    | builtin hmem' => exact absurd (List.mem_map_of_mem hmem') hno
    | given _ hspecs' hassigns' =>
      exact absurd hassigns' (hnone _ (hspecs' ▸ List.mem_append_cons_self) _)
    | configured _ _ hmem' => rw [eq_of_mem_of_nodup hnodup hmem hmem']
    | nothing _ _ hno' => exact absurd (List.mem_map_of_mem hmem) hno'
  | nothing hno hnone hno' =>
    cases h' with
    | builtin hmem' => exact absurd (List.mem_map_of_mem hmem') hno
    | given _ hspecs' hassigns' =>
      exact absurd hassigns' (hnone _ (hspecs' ▸ List.mem_append_cons_self) _)
    | configured _ _ hmem' => exact absurd (List.mem_map_of_mem hmem') hno'
    | nothing => rfl

theorem exists_of_forall₂_append_cons {α β : Type} {r : α → β → Prop} {as : List α}
    {before after : List β} {b : β} (h : List.Forall₂ r as (before ++ b :: after)) :
    ∃ front a back, as = front ++ a :: back ∧ r a b ∧ List.Forall₂ r back after := by
  obtain ⟨a, back, hab, hback, hdrop⟩ :=
    List.forall₂_cons_right_iff.mp (List.forall₂_drop_append _ _ _ h)
  refine ⟨as.take before.length, a, back, ?_, hab, hback⟩
  rw [← hdrop, List.take_append_drop]

theorem not_assigns_of_notMem
    (h : List.Forall₂ (fun spec constant => Assigns spec constant.1 constant.2) specs constants)
    (hname : name ∉ constants.map Prod.fst) :
    ∀ spec ∈ specs, ∀ text, ¬Assigns spec name text := by
  induction h with
  | nil => nofun
  | cons hassigns _ ih =>
    obtain ⟨hhead, hrest⟩ := not_or.mp (mt List.mem_cons.mpr hname)
    refine List.forall_mem_cons.mpr ⟨fun text hname => hhead (hname.unique hassigns).1, ih hrest⟩

theorem find?_constants_cases (bs : Bindings H) (constants : List (String × String))
    (name : String) :
    let bound := bs.insertAll (constants.map fun constant => (constant.1, .constant constant.2))
    (∃ before text after, constants = before ++ (name, text) :: after ∧
      name ∉ after.map Prod.fst ∧ bound.find? name = some (.constant text)) ∨
    (name ∉ constants.map Prod.fst ∧ bound.find? name = bs.find? name) := by
  intro bound
  obtain ⟨before, binding, after, hmore, hafter, hfind⟩ | ⟨hnew, hfind⟩ :=
    bs.find?_insertAll_cases (constants.map fun constant => (constant.1, .constant constant.2)) name
  · obtain ⟨front, back, rfl, -, hback⟩ := List.map_eq_append_iff.mp hmore
    obtain ⟨⟨_, text⟩, rest, rfl, heq, rfl⟩ := List.map_eq_cons_iff.mp hback
    cases heq
    exact .inl ⟨front, text, rest, rfl, by simpa using hafter, hfind⟩
  · exact .inr ⟨by simpa using hnew, hfind⟩

theorem standsFor_find?
    (h : List.Forall₂ (fun spec constant => Assigns spec constant.1 constant.2) specs constants)
    (configured : List (String × String)) (name : String) :
    StandsFor specs configured name
      ((Bindings.initial (H := H)
        (configured.map (fun constant => (constant.1, .constant constant.2)) ++
          constants.map fun constant => (constant.1, .constant constant.2))).find? name) := by
  unfold Bindings.initial
  obtain ⟨before, binding, after, hbuiltins, -, hfind⟩ | ⟨hbuiltins, hfind⟩ :=
    Bindings.find?_insertAll_cases _ (Bindings.builtins (H := H)) name <;> rw [hfind]
  · exact .builtin (hbuiltins ▸ List.mem_append_cons_self)
  rw [Bindings.insertAll, List.foldl_append]
  obtain ⟨before, text, after, rfl, hafter, hfind⟩ | ⟨hconstants, hfind⟩ :=
    find?_constants_cases (Bindings.empty.insertAll (H := H)
      (configured.map fun constant => (constant.1, .constant constant.2))) constants name
  · obtain ⟨front, spec, back, rfl, hassigns, hback⟩ := exists_of_forall₂_append_cons h
    exact hfind ▸ .given hbuiltins rfl hassigns (not_assigns_of_notMem hback hafter)
  have hspecs := not_assigns_of_notMem h hconstants
  refine hfind ▸ ?_
  obtain ⟨before, text, after, rfl, -, hfind⟩ | ⟨hconfigured, hfind⟩ :=
    find?_constants_cases (Bindings.empty (H := H)) configured name <;> rw [hfind]
  · exact .configured hbuiltins hspecs List.mem_append_cons_self
  · exact .nothing hbuiltins hspecs hconfigured

structure Obeys (state : Option Int → σ) (i : Invocation) (config : Config.Settings)
    (session : Session H σ) : Prop where
  names (name : String) (binding : Option (Binding H)) :
    session.world.bindings.find? name = binding ↔ StandsFor i.vars config.constants name binding
  timeout (x : Float) : i.timeout = some x → session.timeout = some (.float x)
  timeout_of_none : i.timeout = none → session.timeout = config.timeout
  seed (n : Int) : i.seed = some n → session.world.state = state (some n)
  seed_of_none : i.seed = none → session.world.state = state config.seed

theorem prepare_of_loadSettings (h : Config.loadSettings fs (configPath i) none = .ok config) :
    prepare (H := H) state fs i = sessionOf state i config := by
  unfold prepare
  rw [h]
  rfl

theorem obeys_of_assigns (hnodup : (config.constants.map Prod.fst).Nodup)
    (h : List.Forall₂ (fun spec constant => Assigns spec constant.1 constant.2) i.vars constants) :
    Obeys (H := H) state i config
      (.start (config.bindings ++ constants.map fun (name, value) => (name, .constant value))
        ((i.timeout.map Number.float).or config.timeout) (state (i.seed.or config.seed))) where
  names name binding := by
    have hfind := standsFor_find? (H := H) h config.constants name
    exact ⟨fun hbinding => hbinding ▸ hfind, hfind.unique hnodup⟩
  timeout x hx := by rw [Session.start, hx, Option.map_some, Option.some_or]
  timeout_of_none hnone := by rw [Session.start, hnone, Option.map_none, Option.none_or]
  seed n hn := by rw [Session.start, hn, Option.some_or]
  seed_of_none hnone := by rw [Session.start, hnone, Option.none_or]

theorem exists_obeys (state : Option Int → σ)
    (hconfig : Config.loadSettings fs (configPath i) none = .ok config)
    (h : ∀ spec ∈ i.vars, '=' ∈ spec.toList) :
    ∃ session : Session H σ, prepare state fs i = .ok session ∧ Obeys state i config session := by
  obtain ⟨-, constants, hmap, hassigns⟩ | ⟨before, bad, after, hvars, -, hbad, -⟩ :=
    mapM_variableOf_cases i.vars
  · refine ⟨_, ?_, obeys_of_assigns (Config.nodup_of_settingsIn hconfig) hassigns⟩
    rw [prepare_of_loadSettings hconfig, sessionOf, hmap]
    rfl
  · exact absurd (h bad (hvars ▸ List.mem_append_cons_self)) hbad

theorem exists_first_bad (state : Option Int → σ)
    (hconfig : Config.loadSettings fs (configPath i) none = .ok config)
    (h : ∃ spec ∈ i.vars, '=' ∉ spec.toList) :
    ∃ before bad after, i.vars = before ++ bad :: after ∧ (∀ spec ∈ before, '=' ∈ spec.toList) ∧
      '=' ∉ bad.toList ∧ prepare (H := H) state fs i = .error (.badVariable bad) := by
  obtain ⟨hall, -⟩ | ⟨before, bad, after, hvars, hbefore, hbad, hmap⟩ :=
    mapM_variableOf_cases i.vars
  · obtain ⟨spec, hspec, hno⟩ := h
    exact absurd (hall spec hspec) hno
  · refine ⟨before, bad, after, hvars, hbefore, hbad, ?_⟩
    rw [prepare_of_loadSettings hconfig, sessionOf, hmap]
    rfl

/-- A run obeys its flags before its configuration, name by name and field by field, and its built-in
tags before both. With a variable that has no equals sign it renders nothing, and ends with the status
of a failure. What the flags say is what they are given last, and for variables all of it. -/
theorem flags_override_configuration (host : Host H σ) (state : Option Int → σ)
    (fs : Files.FileSystem) (hrequest : request arguments = .ok (.run i))
    (hconfig : Config.loadSettings fs (configPath i) none = .ok config) (lines : List String) :
    ((∀ spec ∈ i.vars, '=' ∈ spec.toList) →
      ∃ session : Session H σ, Obeys state i config session ∧
        (∀ source, sourceOf fs i = .ok (some source) →
          run host state fs arguments lines =
            i.told (render host session source (prepareJournal fs i))) ∧
        (sourceOf fs i = .ok none →
          run host state fs arguments lines =
            i.told (runShell host session lines (prepareJournal fs i)))) ∧
    ((∃ spec ∈ i.vars, '=' ∉ spec.toList) →
      ∃ before bad after, i.vars = before ++ bad :: after ∧
        (∀ spec ∈ before, '=' ∈ spec.toList) ∧ '=' ∉ bad.toList ∧
        run host state fs arguments lines =
          i.told ⟨.ok 2, "", Text.stripEnd (ProgramError.badVariable bad).message ++ "\n",
            prepareJournal fs i⟩) ∧
    ∀ (front file back : List String) (settings others : List Setting),
      arguments = front ++ file ++ back → Gives front settings → Gives back others →
      (file = [] ∨ ∃ name, file = [name] ∧ wordOf name = .ok (.argument name)) →
      i.SetBy (settings ++ others) := by
  refine ⟨?_, ?_, ?_⟩
  · intro hvars
    obtain ⟨session, hsession, hobeys⟩ := exists_obeys (H := H) state hconfig hvars
    refine ⟨session, hobeys, ?_, ?_⟩
    · intro source hsource
      rw [run_eq_told hrequest, invoke_eq_render hsession hsource]
    · intro hsource
      rw [run_eq_told hrequest]
      simp only [invoke, hsession, hsource]
  · intro hvars
    obtain ⟨before, bad, after, hsplit, hbefore, hbad, hprepare⟩ :=
      exists_first_bad (H := H) state hconfig hvars
    refine ⟨before, bad, after, hsplit, hbefore, hbad, ?_⟩
    rw [run_eq_told hrequest]
    simp only [invoke, hprepare]
    rfl
  · rintro front file back settings others rfl hfront hback hfile
    exact setBy_of_request hfront hback hfile hrequest

def twoVariables : Files.FileSystem :=
  Config.holding "timeout: 5\nvariables:\n  a: x\n  b: y\n"

theorem loadSettings_twoVariables :
    Config.loadSettings twoVariables none none =
      .ok ⟨some (.float 5), none, [("a", "x"), ("b", "y")]⟩ := by
  decide +kernel

def seedKeeper : Host Unit (Option Int) where
  now seed := (0, seed)
  draw seed := (.ok 0, seed)
  call _ _ bindings seed := (.ok "", bindings, seed)

/-- Of two flags for one name the second counts, and a timeout of zero is one; from the third flag of
the other command line an equals sign is missing. -/
theorem flags_override_twoVariables :
    let i := { Invocation.empty with
      eval := some "\x7ba\x7d", timeout := some 0, vars := [" a =1", "a=2=3"] }
    let arguments := ["--var= a =1", "--timeout=0", "--var=a=2=3", "--eval=\x7ba\x7d"]
    (∃ session : Session Unit (Option Int),
      session.world.bindings.find? "a" = some (.constant "2=3") ∧
      session.world.bindings.find? "b" = some (.constant "y") ∧
      session.timeout = some (.float 0) ∧ session.world.state = none ∧
      run seedKeeper id twoVariables arguments [] =
        i.told (render seedKeeper session ("\x7ba\x7d", "\n") (prepareJournal twoVariables i))) ∧
    i.vars = [" a =1", "a=2=3"] ∧
    (run seedKeeper id twoVariables ["--var=a=1", "--seed=0", "--var=a"] []).out = "" := by
  intro i arguments
  have hvar (text : String) : Gives ["--var=" ++ text] [⟨.var, some text⟩] :=
    gives_assigned "--var" (by decide) rfl text
  have hfirst : Assigns " a =1" "a" "1" := ⟨" a ", by decide, by decide, by decide⟩
  have hlast : Assigns "a=2=3" "a" "2=3" := ⟨"a", by decide, by decide, by decide⟩
  have hother : ∀ spec ∈ [" a =1", "a=2=3"], ∀ text, ¬Assigns spec "b" text := by
    intro spec hspec text h
    rcases List.mem_pair.mp hspec with rfl | rfl
    · exact absurd (h.unique hfirst).1 (by decide)
    · exact absurd (h.unique hlast).1 (by decide)
  have hgives : Gives arguments [⟨.var, some " a =1"⟩, ⟨.timeout, some "0"⟩,
      ⟨.var, some "a=2=3"⟩, ⟨.eval, some "\x7ba\x7d"⟩] :=
    (((hvar " a =1").append (gives_assigned "--timeout" (by decide) rfl "0")).append
      (hvar "a=2=3")).append (gives_assigned "--eval" (by decide) rfl "\x7ba\x7d")
  have hrequest : request arguments = .ok (.run i) := by
    rw [request_of_gives hgives]
    rfl
  obtain ⟨hobeyed, -, hset⟩ := flags_override_configuration seedKeeper id twoVariables hrequest
    loadSettings_twoVariables []
  refine ⟨?_, (hset arguments [] [] _ [] rfl hgives gives_nothing (.inl rfl)).vars, ?_⟩
  · obtain ⟨session, hobeys, hrun, -⟩ := hobeyed (by decide)
    have hsplit : [" a =1", "a=2=3"] = [" a =1"] ++ "a=2=3" :: [] := rfl
    exact ⟨session, (hobeys.names "a" _).mpr (.given (by decide) hsplit hlast nofun),
      (hobeys.names "b" _).mpr (.configured (by decide) hother (by decide)),
      hobeys.timeout 0 rfl, hobeys.seed_of_none rfl, hrun _ rfl⟩
  · have hgives : Gives ["--var=a=1", "--seed=0", "--var=a"]
        [⟨.var, some "a=1"⟩, ⟨.seed, some "0"⟩, ⟨.var, some "a"⟩] :=
      ((hvar "a=1").append (gives_assigned "--seed" (by decide) rfl "0")).append (hvar "a")
    have hrequest : request ["--var=a=1", "--seed=0", "--var=a"] =
        .ok (.run { Invocation.empty with seed := some 0, vars := ["a=1", "a"] }) := by
      rw [request_of_gives hgives]
      rfl
    obtain ⟨-, hbad, -⟩ := flags_override_configuration seedKeeper id twoVariables hrequest
      loadSettings_twoVariables []
    obtain ⟨before, bad, after, -, -, -, hrun⟩ := hbad ⟨"a", by decide, by decide⟩
    rw [hrun]
    rfl

end TagTemplate.CommandLine
