import TagTemplate.Host.Scripted
import TagTemplate.Proofs.CommandLine.Spelling
import TagTemplate.Proofs.Config.Documents
import TagTemplate.Proofs.Evaluation.Failing
import TagTemplate.Proofs.Random.Generator

/-! How renderings end. No names but those of built-in tags and of texts can be given on the command
line, so that a rendering ends with a status, unless a built-in tag oversteps. -/
namespace TagTemplate.CommandLine
open Evaluation Template

variable {H σ : Type} {host : Host H σ} {good : σ → Prop} {state : Option Int → σ}
  {fs : Files.FileSystem} {i : Invocation} {session : Session H σ}

theorem status_failed (e : ProgramError) (journal : List String) :
    (Ending.failed e journal).status = if e.isExpected then .ok 2 else .error e := by
  unfold Ending.failed
  split <;> rfl

theorem isExpected_of_compile_eq_error {source : String} {e : ReadError}
    (h : compile source = .error e) : (ProgramError.run (.read e)).isExpected := by
  rcases hread : readDocument nestingLimit source.toList with r | tree
  · obtain ⟨s, hs, -⟩ := compileWithin_of_refusal hread
    obtain rfl : ReadError.malformed s = e := Except.error.inj (hs.symm.trans h)
    rfl
  · rw [compile, compileWithin_eq_ok_iff.mpr hread] at h
    cases h

theorem hostless_texts {α : Type} (names : List α) (name value : α → String) :
    Hostless (names.map fun a => (name a, (.constant (value a) : Binding H))) := by
  intro entry hentry tag
  obtain ⟨a, -, rfl⟩ := List.mem_map.mp hentry
  nofun

/-- The session that is prepared has no tags of the host, and its timeout makes a deadline. -/
theorem exists_start_of_prepare (h : prepare state fs i = .ok session) :
    ∃ given timeout seed, session = .start given timeout (state seed) ∧ Hostless given ∧
      ¬Immeasurable timeout := by
  obtain ⟨settings, hsettings, h⟩ := Config.bind_eq_ok.mp h
  obtain ⟨constants, -, h⟩ := Config.bind_eq_ok.mp h
  have hload := Config.mapError_eq_ok_iff.mp hsettings
  refine ⟨_, _, _, (Except.ok.inj h).symm, ?_, ?_⟩
  · intro entry hentry
    rcases List.mem_append.mp hentry with hentry | hentry
    · exact hostless_texts settings.constants Prod.fst Prod.snd entry hentry
    · exact hostless_texts constants Prod.fst Prod.snd entry hentry
  · rintro ⟨t, ht, hlarge⟩
    obtain ⟨x, rfl⟩ : ∃ x, t = .float x := by
      cases htimeout : i.timeout with
      | some x =>
        rw [htimeout] at ht
        exact ⟨x, (Option.some.inj ht).symm⟩
      | none =>
        rw [htimeout] at ht
        exact Config.exists_float_of_settingsIn hload ht
    cases hlarge

theorem render_status_of_ok {source : String × String} {text : String}
    (h : (session.run host source.1).1 = .ok text) (journal : List String) :
    (render host session source journal).status = .ok 0 := by
  simp only [render, h]

theorem render_status_of_error {source : String × String} {e : RunError}
    (h : (session.run host source.1).1 = .error e) (journal : List String) :
    (render host session source journal).status =
      if (ProgramError.run e).isExpected then .ok 2 else .error (.run e) := by
  simp only [render, h, status_failed]

theorem run_eq_render {arguments lines : List String} {source : String × String}
    (hrequest : request arguments = .ok (.run i)) (hsession : prepare state fs i = .ok session)
    (hsource : sourceOf fs i = .ok (some source)) :
    (run host state fs arguments lines).status =
      (render host session source (prepareJournal fs i)).status := by
  rw [run_eq_told hrequest, Invocation.status_told, invoke_eq_render hsession hsource]

theorem isExpected_of_isUser {e : EvalError} (h : e.isUser) :
    (ProgramError.run (.eval e)).isExpected := by
  simp only [ProgramError.isExpected, h, Bool.true_or]

theorem isExpected_of_isUncounted {cause : BuiltinError} (h : cause.IsUncounted) :
    (ProgramError.run (.eval (.builtin cause))).isExpected ∨ cause = .infiniteStep := by
  rcases h with rfl | rfl
  · exact .inr rfl
  · exact .inl rfl

theorem session_run_cases (hhost : DrawsWithin host good) (hstate : ∀ seed, good (state seed))
    (hsession : prepare state fs i = .ok session) (source : String) :
    (∃ text, (session.run host source).1 = .ok text) ∨
      ∃ e, (session.run host source).1 = .error e ∧ ((ProgramError.run e).isExpected ∨
        e = .eval (.builtin .infiniteStep) ∧
          Overstepped session.world.bindings (session.run host source).2.world.events) := by
  obtain ⟨given, timeout, seed, rfl, hgiven, htimeout⟩ := exists_start_of_prepare hsession
  rcases hcompile : compile source with e | tree
  · refine .inr ⟨.read e, ?_, .inl (isExpected_of_compile_eq_error hcompile)⟩
    rw [Session.run_of_refusal hcompile]
  · rcases render_cases hhost hgiven timeout (hstate seed) hcompile with
      htext | ⟨e, he, (hpromised | ⟨⟨cause, rfl, huncounted⟩, hoverstepped⟩) | ⟨-, hlarge⟩⟩
    · exact .inl htext
    · exact .inr ⟨.eval e, he, .inl (isExpected_of_isUser hpromised.isUser)⟩
    · rcases isExpected_of_isUncounted huncounted with hexpected | rfl
      · exact .inr ⟨_, he, .inl hexpected⟩
      · exact .inr ⟨_, he, .inr ⟨rfl, hoverstepped⟩⟩
    · exact absurd hlarge htimeout

theorem drawsWithin_scripted : DrawsWithin Host.scripted fun s => s.generator.IsWithin where
  now h := h
  draw {s} h := by
    obtain ⟨x, hx, hdraw, hwithin⟩ := Random.Generator.exists_draw h
    refine ⟨x, ?_, hdraw, hwithin⟩
    change s.generator.draw.1.elim _ _ = _
    rw [hx, Option.elim_some]

theorem request_eval {source : String} (h : source.startsWith "-" = false) :
    request ["-e", source] = .ok (.run { Invocation.empty with eval := some source }) := by
  have hflag : wordOf "-e" = .ok (.flag ⟨.eval, "-e", none, false⟩) := by decide +kernel
  have hwords : wordsOf ["-e", source] =
      .ok [.flag ⟨.eval, "-e", none, false⟩, .argument source] := by
    rw [wordsOf_cons hflag nofun, wordsOf_cons (wordOf_of_not_startsWith h) nofun, wordsOf]
    rfl
  have hgives : Gives ["-e", source] [⟨.eval, some source⟩] :=
    ⟨_, hwords, .apart source rfl rfl .nothing⟩
  rw [request_of_gives hgives]
  rfl

def bareDirectory : Files.FileSystem := ⟨⟨0, []⟩, fun _ => .missing⟩

theorem prepare_bareDirectory (state : Option Int → σ) (source : String) :
    prepare (H := H) state bareDirectory { Invocation.empty with eval := some source } =
      .ok (.start [] none (state none)) :=
  rfl

theorem sourceOf_eval (fs : Files.FileSystem) (source : String) :
    sourceOf fs { Invocation.empty with eval := some source } = .ok (some (source, "\n")) :=
  rfl

/-- Where draws are from zero to below one and no tags are there but the built-in ones, a template that
compiles gives a text, or it fails with one of the errors that are promised; but a timeout too large
for a deadline is an error of its own, and so is a call that oversteps. A range whose ends are finite
and too far apart always does. From the command line all of this ends with a status, except that an
infinite step leaves the program. -/
theorem renderings_fail_as_promised (hhost : DrawsWithin host good) :
    (∀ (given : List (String × Binding H)) (timeout : Option Number) (start : σ)
        (source : String) (tree : Node),
      Hostless given → good start → compile source = .ok tree →
        let rendering := Evaluation.render host given timeout start source
        (∃ text, rendering.1 = .ok text) ∨ ∃ e, rendering.1 = .error (.eval e) ∧
          (e.Promised timeout ∨ (e = .timeoutTooLarge ∧ Immeasurable timeout) ∨
            (∃ cause : BuiltinError, e = .builtin cause ∧ cause.IsUncounted) ∧
              Overstepped (.initial given) rendering.2.world.events)) ∧
    (∀ (arguments : List String) (w : World H σ), TooFarApart arguments → good w.state →
      ∃ cause : BuiltinError, cause.IsUncounted ∧
        (callBinding host (.builtin .randomNumber) arguments w).1 = .error (.builtin cause)) ∧
    ∀ (state : Option Int → σ) (fs : Files.FileSystem) (arguments lines : List String)
        (i : Invocation) (session : Session H σ) (source : String × String),
      (∀ seed, good (state seed)) → request arguments = .ok (.run i) →
        prepare state fs i = .ok session → sourceOf fs i = .ok (some source) →
        let status := (run host state fs arguments lines).status
        status = .ok 0 ∨ status = .ok 2 ∨
          status = .error (.run (.eval (.builtin .infiniteStep))) ∧
            Overstepped session.world.bindings (session.run host source.1).2.world.events := by
  refine ⟨?_, fun _ _ => callBinding_of_tooFarApart hhost, ?_⟩
  · intro given timeout start source tree hgiven hstart htree rendering
    rcases render_cases hhost hgiven timeout hstart htree with
      htext | ⟨e, he, (hpromised | hoverstepped) | hlarge⟩
    · exact .inl htext
    · exact .inr ⟨e, he, .inl hpromised⟩
    · exact .inr ⟨e, he, .inr (.inr hoverstepped)⟩
    · exact .inr ⟨e, he, .inr (.inl hlarge)⟩
  · intro state fs arguments lines i session source hstate hrequest hsession hsource status
    have hstatus : status = _ := run_eq_render hrequest hsession hsource
    rcases session_run_cases hhost hstate hsession source.1 with
      ⟨text, htext⟩ | ⟨e, he, hexpected | ⟨rfl, hoverstepped⟩⟩
    · exact .inl (hstatus.trans (render_status_of_ok htext _))
    · rw [render_status_of_error he, if_pos hexpected] at hstatus
      exact .inr (.inl hstatus)
    · exact .inr (.inr ⟨hstatus.trans (render_status_of_error he _), hoverstepped⟩)

def seededStage (seed : Option Int) : Host.Stage :=
  ⟨.int 0, .int 1, .ofSeed seed, [], []⟩

theorem isWithin_seededStage (seed : Option Int) : (seededStage seed).generator.IsWithin :=
  trivial

/-- One of the bounds is declared, and one of the choices is given. -/
theorem seeded_rendering_fails_as_promised :
    let given : List (String × Binding Host.Tag) := [("word", .constant "b")]
    let source := "\x7bn='3'\x7d\x7brandomNumber \x7bn\x7d '5'\x7d\x7brandom 'a' \x7bword\x7d\x7d"
    let rendering := Evaluation.render Host.scripted given (some (.int 1000))
      (seededStage (some 1)) source
    let status := (run Host.scripted seededStage bareDirectory ["-e", source] []).status
    Hostless given ∧ (∃ tree, compile source = .ok tree) ∧
      ((∃ text, rendering.1 = .ok text) ∨ ∃ e, rendering.1 = .error (.eval e) ∧
        (e.Promised (some (.int 1000)) ∨
          (e = .timeoutTooLarge ∧ Immeasurable (some (.int 1000))) ∨
          (∃ cause : BuiltinError, e = .builtin cause ∧ cause.IsUncounted) ∧
            Overstepped (.initial given) rendering.2.world.events)) ∧
      (status = .ok 0 ∨ status = .ok 2 ∨
        status = .error (.run (.eval (.builtin .infiniteStep)))) := by
  have hgiven : Hostless [("word", (.constant "b" : Binding Host.Tag))] := by simp [Hostless]
  have hcompile : ∃ tree, compile
      "\x7bn='3'\x7d\x7brandomNumber \x7bn\x7d '5'\x7d\x7brandom 'a' \x7bword\x7d\x7d" = .ok tree :=
    ⟨_, rfl⟩
  have hsource : String.startsWith
      "\x7bn='3'\x7d\x7brandomNumber \x7bn\x7d '5'\x7d\x7brandom 'a' \x7bword\x7d\x7d" "-" = false := by
    decide +kernel
  obtain ⟨hevaluation, -, hprogram⟩ := renderings_fail_as_promised drawsWithin_scripted
  refine ⟨hgiven, hcompile, ?_, ?_⟩
  · obtain ⟨tree, htree⟩ := hcompile
    exact hevaluation _ _ _ _ tree hgiven (isWithin_seededStage (some 1)) htree
  · have hstatus := hprogram seededStage bareDirectory ["-e", _] [] _ _ _ isWithin_seededStage
      (request_eval hsource) (prepare_bareDirectory seededStage _) (sourceOf_eval _ _)
    exact hstatus.imp_right (·.imp_right And.left)

def evenStage : Host.Stage := ⟨.int 0, .int 1, .cycle [0.5] 0, [], []⟩

/-- A call with a range from one end of the numbers to the other. -/
def wideRange : String := "\x7brandomNumber '-1e308' '1e308'\x7d"

def wideTree : Node :=
  .template [.tag "randomNumber" [.quoted .single "-1e308" 8, .quoted .single "1e308" 7] 31] 31

theorem compile_wideRange : compile wideRange = .ok wideTree := rfl

theorem outcome_of_wideRange : ∃ f,
    Builtin.outcome .randomNumber (["-1e308", "1e308"].map some) = .ok (.drawn f) ∧
      f 0.5 = .error .infiniteStep := by
  have hbounds : bounds (some "-1e308") (some "1e308") = .ok (-1e308, 1e308) := by decide +kernel
  have horder : ¬ (1e308 : Float) < -1e308 := by decide +kernel
  have hstep : numberIn (-1e308) 1e308 0.5 = .error .infiniteStep := by decide +kernel
  refine ⟨fun draw => (numberIn (-1e308) 1e308 draw).map some, ?_, ?_⟩
  · rw [Builtin.outcome_randomNumber]
    simp only [List.head?_cons, List.getElem?_cons_succ, List.getElem?_cons_zero, hbounds,
      if_neg horder]
  · exact congrArg (Except.map some) hstep

theorem run_wideRange :
    ((Session.start [] none evenStage).run Host.scripted wideRange).1 =
      .error (.eval (.builtin .infiniteStep)) := by
  obtain ⟨f, hf, hstep⟩ := outcome_of_wideRange
  have hnow (s : Host.Stage) (hs : s.generator = .cycle [0.5] 0) :
      (Host.scripted.now s).2.generator = .cycle [0.5] 0 := hs
  let w : World Host.Tag Host.Stage := ⟨.initial [], evenStage, []⟩
  have hresolve : w.bindings.resolve? "randomNumber" = some (.builtin .randomNumber) := rfl
  obtain ⟨v, hv, hcalls⟩ := exists_evaluate_call (n := 31) hnow hresolve rfl .single
    [("-1e308", 8), ("1e308", 7)] 31
  have hdraw : (Host.scripted.draw v.state).1 = .ok 0.5 := by
    change v.state.generator.draw.1.elim _ _ = _
    rw [hv]
    rfl
  have hcall : callBinding Host.scripted (.builtin .randomNumber) ["-1e308", "1e308"] v =
      (.error (.builtin .infiniteStep), { v with state := (Host.scripted.draw v.state).2 }) := by
    rw [callBinding_of_drawn hf hdraw, hstep]
    rfl
  have hfails : evaluate Host.scripted none wideTree w = _ := hcalls _ _ hcall rfl
  have hrun : Evaluation.render Host.scripted [] none evenStage wideRange = _ :=
    Session.render_of_tree compile_wideRange [] none evenStage
  rw [hfails] at hrun
  exact congrArg Prod.fst hrun

/-- The bounds are finite and in their order, and yet the rendering ends with an error that is none of
the promised ones, and the program ends with it. -/
theorem wide_range_leaves_program :
    evenStage.generator.IsWithin ∧ (∃ tree, compile wideRange = .ok tree) ∧
      (Evaluation.render Host.scripted [] none evenStage wideRange).1 =
        .error (.eval (.builtin .infiniteStep)) ∧
      (EvalError.builtin .infiniteStep).isUser = false ∧
      (run Host.scripted (fun _ => evenStage) bareDirectory ["-e", wideRange] []).status =
        .error (.run (.eval (.builtin .infiniteStep))) := by
  have hdraws : evenStage.generator.IsWithin := by
    refine ⟨nofun, fun x hx => ?_⟩
    obtain rfl := List.mem_singleton.mp hx
    unfold Binary64.IsDraw
    decide +kernel
  have hsource : wideRange.startsWith "-" = false := by decide +kernel
  have hrun : ((Session.start [] none evenStage).run Host.scripted (wideRange, "\n").1).1 =
      .error (.eval (.builtin .infiniteStep)) := by
    simp only
    exact run_wideRange
  refine ⟨hdraws, ⟨_, compile_wideRange⟩, ?_, rfl, ?_⟩
  · rw [Evaluation.render]
    exact run_wideRange
  · rw [run_eq_render (request_eval hsource) (prepare_bareDirectory _ wideRange)
      (sourceOf_eval _ _)]
    exact render_status_of_error hrun _

end TagTemplate.CommandLine
