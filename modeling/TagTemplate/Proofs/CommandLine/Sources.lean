import TagTemplate.Proofs.CommandLine.Spelling
import TagTemplate.Proofs.Evaluation.Silent
import TagTemplate.Proofs.Text.Utf8

/-! A template from a file and the same template on the command line. The two are rendered alike;
only the line feed behind the text is there in one and not in the other. But the ends of lines in a
file are made plain, and those on the command line are not. -/
namespace TagTemplate.CommandLine
open Evaluation

variable {H σ : Type} {host : Host H σ} {state state' : Option Int → σ} {fs : Files.FileSystem}
  {i : Invocation} {arguments : List String}

/-- The endings are the same, except that the second run writes one line feed more where it
succeeds. -/
structure Ending.LineApart (ending other : Ending) : Prop where
  status : other.status = ending.status
  err : other.err = ending.err
  journal : other.journal = ending.journal
  out_of_ok : ending.status = .ok 0 → other.out = ending.out ++ "\n"
  out_of_not_ok : ending.status ≠ .ok 0 → ending.out = "" ∧ other.out = ""

theorem out_failed (e : ProgramError) (journal : List String) :
    (Ending.failed e journal).out = "" := by
  unfold Ending.failed
  split <;> rfl

theorem status_failed_ne (e : ProgramError) (journal : List String) :
    (Ending.failed e journal).status ≠ .ok 0 := by
  unfold Ending.failed
  split <;> nofun

theorem lineApart_failed (e : ProgramError) (journal : List String) :
    (Ending.failed e journal).LineApart (.failed e journal) where
  status := rfl
  err := rfl
  journal := rfl
  out_of_ok h := absurd h (status_failed_ne e journal)
  out_of_not_ok _ := ⟨out_failed e journal, out_failed e journal⟩

theorem lineApart_render (host : Host H σ) (s : Session H σ) (text : String)
    (journal : List String) :
    (render host s (text, "") journal).LineApart (render host s (text, "\n") journal) := by
  unfold render
  rcases s.run host text with ⟨e | produced, after⟩
  · exact lineApart_failed _ _
  · exact ⟨rfl, rfl, rfl, fun _ => by simp, fun h => absurd rfl h⟩

def Seeded (fs : Files.FileSystem) (i : Invocation) : Prop :=
  ∀ settings, Config.loadSettings fs (configPath i) none = .ok settings →
    (i.seed.or settings.seed).isSome

theorem prepare_of_seeded (hstate : ∀ seed, state (some seed) = state' (some seed))
    (h : Seeded fs i) : prepare (H := H) state fs i = prepare state' fs i := by
  unfold prepare
  cases hload : Config.loadSettings fs (configPath i) none with
  | error e => rfl
  | ok settings =>
    obtain ⟨seed, hseed⟩ := Option.isSome_iff_exists.mp (h settings hload)
    simp only [Except.mapError, bind, Except.bind, sessionOf, hseed, hstate]

theorem sourceOf_file {name text : String} (hname : name ≠ "")
    (hfile : fs.find (.ofString name) = .file (Text.Utf8.encode text)) (i : Invocation) :
    sourceOf fs (i.rendering (some name) none) = .ok (some (Text.Utf8.plain text, "")) := by
  have hpath : templatePath (i.rendering (some name) none) = some (.ofString name) := by
    rw [templatePath, Invocation.rendering, Option.filter_some, if_pos (by simp [hname])]
    rfl
  have hread : fs.read (.ofString name) = .ok (Text.Utf8.plain text) := by
    rw [Files.FileSystem.read, hfile]
    simp only [Text.Utf8.text_encode]
    rfl
  rw [sourceOf, hpath]
  simp only [hread]
  rfl

theorem lineApart_invoke {name text : String} (hname : name ≠ "")
    (hfile : fs.find (.ofString name) = .file (Text.Utf8.encode text))
    (hstate : ∀ seed, state (some seed) = state' (some seed)) (hseeded : Seeded fs i)
    (lines lines' : List String) :
    (invoke host state fs (i.rendering (some name) none) lines).LineApart
      (invoke host state' fs (i.rendering none (some (Text.Utf8.plain text))) lines') := by
  have hprepare (file eval : Option String) (state : Option Int → σ) :
      prepare (H := H) state fs (i.rendering file eval) = prepare state fs i := rfl
  have htext : sourceOf fs (i.rendering none (some (Text.Utf8.plain text))) =
      .ok (some (Text.Utf8.plain text, "\n")) := rfl
  unfold invoke
  rw [hprepare, hprepare, ← prepare_of_seeded hstate hseeded, sourceOf_file hname hfile, htext]
  cases prepare state fs i with
  | error e => exact lineApart_failed _ _
  | ok session => exact lineApart_render host session _ _

theorem lineApart_run {other : List String} {file text : Option String}
    {lines lines' : List String} (h : request arguments = .ok (.run (i.rendering file none)))
    (h' : request other = .ok (.run (i.rendering none text)))
    (hending : (invoke host state fs (i.rendering file none) lines).LineApart
      (invoke host state' fs (i.rendering none text) lines')) :
    (run host state fs arguments lines).LineApart (run host state' fs other lines') := by
  simp only [run, h, h']
  have hverbose (file eval : Option String) : (i.rendering file eval).verbose = i.verbose := rfl
  rw [hverbose, hverbose]
  cases i.verbose with
  | true => exact hending
  | false => exact ⟨hending.status, hending.err, rfl, hending.out_of_ok, hending.out_of_not_ok⟩

/-- A template in a file and the same template on the command line, among the same options, are
rendered alike, whether they succeed or fail; behind the text of the second there is a line feed.
The ends of lines in the file are made plain first, which changes nothing exactly if it has no
carriage returns. -/
theorem file_and_text_rendered_alike (host : Host H σ) (state state' : Option Int → σ)
    (fs : Files.FileSystem) (settings others : List Setting) (front back inline : List String)
    (name text : String) (hfront : Gives front settings) (hback : Gives back others)
    (hoptions : ∀ s ∈ settings ++ others, s.flag.isOption) (hname : name ≠ "")
    (hword : wordOf name = .ok (.argument name))
    (hfile : fs.find (.ofString name) = .file (Text.Utf8.encode text))
    (hinline : Gives inline [⟨.eval, some (Text.Utf8.plain text)⟩])
    (hstate : ∀ seed, state (some seed) = state' (some seed))
    (hseeded : ∀ i, request (front ++ name :: back) = .ok (.run i) → Seeded fs i)
    (lines lines' : List String) :
    (run host state fs (front ++ name :: back) lines).LineApart
        (run host state' fs (front ++ inline ++ back) lines') ∧
      (Text.Utf8.plain text = text ↔ '\r' ∉ text.toList) := by
  refine ⟨?_, Text.Utf8.plain_eq_self_iff⟩
  obtain ⟨hrequest, hrequest'⟩ := requests_among_options hfront hback hoptions hword hinline
  rcases hresult : applied (settings ++ others) .empty with stop | i
  · obtain ⟨e, rfl⟩ := error_of_applied hoptions hresult
    rw [hresult] at hrequest hrequest'
    unfold run
    rw [hrequest, hrequest']
    exact ⟨rfl, rfl, rfl, nofun, fun _ => ⟨rfl, rfl⟩⟩
  · rw [hresult] at hrequest hrequest'
    have hi : Seeded fs i := hseeded (i.rendering (some name) none) hrequest
    exact lineApart_run hrequest hrequest' (lineApart_invoke hname hfile hstate hi lines lines')

theorem out_of_request (h : request arguments = .ok (.run i)) (lines : List String) :
    (run host state fs arguments lines).out = (invoke host state fs i lines).out := by
  rw [run_eq_told h, Invocation.out_told]

theorem out_of_source {session : Session H σ} {source : String × String} {text : String}
    (hsession : prepare state fs i = .ok session) (hsource : sourceOf fs i = .ok (some source))
    (htext : (session.run host source.1).1 = .ok text) (lines : List String) :
    (invoke host state fs i lines).out = text ++ source.2 := by
  rw [invoke_eq_render hsession hsource]
  simp only [render, htext]

theorem gives_seed : Gives ["--seed=1"] [⟨.seed, some "1"⟩] :=
  gives_assigned "--seed" (by decide) rfl "1"

theorem gives_text (text : String) : Gives ["--eval=" ++ text] [⟨.eval, some text⟩] :=
  gives_assigned "--eval" (by decide) rfl text

def rootFile (text : String) : Files.FileSystem :=
  ⟨⟨0, []⟩, fun path => if path.rootMarks = 0 then .missing else .file (Text.Utf8.encode text)⟩

theorem find_rootFile (text : String) :
    (rootFile text).find (.ofString "/page") = .file (Text.Utf8.encode text) := by
  have hroot : (Files.Path.ofString "/page").rootMarks ≠ 0 := by decide
  simp only [rootFile, if_neg hroot]

theorem wordOf_page : wordOf "/page" = .ok (.argument "/page") :=
  wordOf_of_not_startsWith (by decide +kernel)

theorem isOption_seed : ∀ s ∈ [] ++ [Setting.mk .seed (some "1")], s.flag.isOption := by
  simp [Flag.isOption]

def seededOnce : Invocation := { Invocation.empty with seed := some 1 }

theorem requests_page (text : String) :
    request ["/page", "--seed=1"] = .ok (.run (seededOnce.rendering (some "/page") none)) ∧
      request ["--eval=" ++ text, "--seed=1"] =
        .ok (.run (seededOnce.rendering none (some text))) :=
  requests_among_options gives_nothing gives_seed isOption_seed wordOf_page (gives_text text)

/-- From the file the carriage return comes out as a line feed, and from the command line as it
is. -/
theorem carriage_return_made_plain :
    let file := run Visit.joining (fun _ => ()) (rootFile "a\rb") ["/page", "--seed=1"] []
    let inline := run Visit.joining (fun _ => ()) (rootFile "a\rb") ["--eval=a\rb", "--seed=1"] []
    file.out = "a\nb" ∧ inline.out = "a\rb\n" ∧ inline.out ≠ file.out ++ "\n" := by
  intro file inline
  obtain ⟨hrequest, hrequest'⟩ := requests_page "a\rb"
  have hprepare (file eval : Option String) :
      prepare (H := Unit) (fun _ => ()) (rootFile "a\rb") (seededOnce.rendering file eval) =
        .ok (.start [] none ()) := rfl
  have hplain : Text.Utf8.plain "a\rb" = "a\nb" := by decide
  have hsource := sourceOf_file (by decide) (find_rootFile "a\rb") seededOnce
  rw [hplain] at hsource
  have hfile : file.out = "a\nb" :=
    (out_of_request hrequest []).trans (out_of_source (hprepare _ _) hsource rfl [])
  have hsource' : sourceOf (rootFile "a\rb") (seededOnce.rendering none (some "a\rb")) =
      .ok (some ("a\rb", "\n")) := rfl
  have hinline : inline.out = "a\rb\n" :=
    (out_of_request hrequest' []).trans (out_of_source (hprepare _ _) hsource' rfl [])
  refine ⟨hfile, hinline, ?_⟩
  rw [hfile, hinline]
  decide

theorem joined_page_rendered_alike :
    let text := "\x7bjoin ', ' 'a' 'b'\x7d"
    (run Visit.joining (fun _ => ()) (rootFile text) ["/page", "--seed=1"] []).LineApart
      (run Visit.joining (fun _ => ()) (rootFile text) ["--eval=" ++ text, "--seed=1"] []) := by
  intro text
  have hplain : Text.Utf8.plain text = text := by decide
  have hinline : Gives ["--eval=" ++ text] [⟨.eval, some (Text.Utf8.plain text)⟩] := by
    rw [hplain]
    exact gives_text text
  obtain ⟨hrequest, -⟩ := requests_page text
  have hseeded : ∀ i, request ["/page", "--seed=1"] = .ok (.run i) → Seeded (rootFile text) i := by
    intro i hi settings _
    cases hi.symm.trans hrequest
    rfl
  exact (file_and_text_rendered_alike Visit.joining _ _ (rootFile text) [] [⟨.seed, some "1"⟩] []
    ["--seed=1"] ["--eval=" ++ text] "/page" text gives_nothing gives_seed isOption_seed
    (by decide) wordOf_page (find_rootFile text) hinline (fun _ => rfl) hseeded [] []).1

end TagTemplate.CommandLine
