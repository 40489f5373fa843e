import TagTemplate.CommandLine.Program
import TagTemplate.Proofs.Template.Run

/-! Command lines by what they set. A flag and its value can stand in one word or in two; either way
the settings are applied one after another, and what is asked for in the end is decided by them and
by the file. -/
namespace TagTemplate.CommandLine

structure Setting where
  flag : Flag
  value : Option String

def Flag.isOption : Flag → Bool
  | help | version | eval => false
  | _ => true

def Setting.apply (s : Setting) (i : Invocation) : Except Stop Invocation :=
  match s.value with
  | some value => setValue i s.flag value
  | none => setFlag i s.flag

def applied (settings : List Setting) (i : Invocation) : Except Stop Invocation :=
  settings.foldlM (fun i s => s.apply i) i

/-- The words are the settings, one after another, with each value in the same word as its flag or
in the next one. -/
inductive Spells : List Word → List Setting → Prop where
  | nothing : Spells [] []
  | joined {given : Given} {value : String} {words : List Word} {settings : List Setting} :
    given.flag.takesValue → given.value = some value → Spells words settings →
      Spells (.flag given :: words) (⟨given.flag, some value⟩ :: settings)
  | apart {given : Given} {words : List Word} {settings : List Setting} (value : String) :
    given.flag.takesValue → given.value = none → Spells words settings →
      Spells (.flag given :: .argument value :: words) (⟨given.flag, some value⟩ :: settings)
  | plain {given : Given} {words : List Word} {settings : List Setting} :
    given.flag.takesValue = false → given.value = none → Spells words settings →
      Spells (.flag given :: words) (⟨given.flag, none⟩ :: settings)

def Gives (arguments : List String) (settings : List Setting) : Prop :=
  ∃ words, wordsOf arguments = .ok words ∧ Spells words settings

variable {words rest : List Word} {settings others : List Setting} {p : Progress} {given : Given}
  {value : String} {i : Invocation} {arguments front back : List String}

theorem applied_append (settings others : List Setting) (i : Invocation) :
    applied (settings ++ others) i = applied settings i >>= applied others :=
  List.foldlM_append

theorem takeGiven_joined (htakes : given.flag.takesValue) (hvalue : given.value = some value)
    (p : Progress) :
    takeGiven p given =
      (setValue p.invocation given.flag value).map fun i => ({ p with invocation := i }, none) := by
  have hcluster (n : Nat) : clusterOf (n + 1) given =
      .ok ⟨[], some (given.flag, value), none, none⟩ := by
    simp only [clusterOf, hvalue, htakes, if_true]
  simp only [takeGiven, hcluster, Template.mapError_ok, bind, Except.bind, List.foldlM_nil, pure,
    Except.pure, Option.toList_none, List.append_nil]
  cases setValue p.invocation given.flag value <;> rfl

theorem takeGiven_plain (htakes : given.flag.takesValue = false) (hvalue : given.value = none)
    (p : Progress) :
    takeGiven p given =
      (setFlag p.invocation given.flag).map fun i => ({ p with invocation := i }, none) := by
  have hcluster (n : Nat) : clusterOf (n + 1) given = .ok ⟨[given.flag], none, none, none⟩ := by
    simp only [clusterOf, hvalue, htakes, Bool.false_eq_true, if_false]
  simp only [takeGiven, hcluster, Template.mapError_ok, bind, Except.bind, List.foldlM_cons,
    List.foldlM_nil, pure, Except.pure, Option.toList_none, List.append_nil]
  cases setFlag p.invocation given.flag <;> rfl

theorem takeGiven_apart (htakes : given.flag.takesValue) (hvalue : given.value = none)
    (p : Progress) : takeGiven p given = .ok (p, some (given.flag, [])) := by
  simp only [takeGiven, clusterOf, hvalue, htakes]
  rfl

theorem takeWords_flag {r : Except Stop Invocation}
    (h : takeGiven p given = r.map fun i => ({ p with invocation := i }, none))
    (rest : List Word) :
    takeWords (.flag given :: rest) p =
      r >>= fun i => takeWords rest { p with invocation := i } := by
  have hother : ∀ rest, (∀ text more, rest = .argument text :: more → False) →
      takeWords (.flag given :: rest) p =
        r >>= fun i => takeWords rest { p with invocation := i } := by
    intro rest hrest
    rw [takeWords, h]
    · cases r <;> rfl
    · exact hrest
  cases rest with
  | nil => exact hother [] (by rintro _ _ ⟨⟩)
  | cons next rest =>
    cases next with
    | argument text =>
      rw [takeWords, h]
      cases r <;> rfl
    | _ => exact hother _ (by rintro _ _ ⟨⟩)

theorem takeWords_apart (htakes : given.flag.takesValue) (hvalue : given.value = none)
    (p : Progress) (value : String) (rest : List Word) :
    takeWords (.flag given :: .argument value :: rest) p =
      setValue p.invocation given.flag value >>= fun i =>
        takeWords rest { p with invocation := i } := by
  rw [takeWords, takeGiven_apart htakes hvalue]
  rfl

theorem takeWords_spelled (h : Spells words settings) (p : Progress) (rest : List Word) :
    takeWords (words ++ rest) p =
      applied settings p.invocation >>= fun i => takeWords rest { p with invocation := i } := by
  induction h generalizing p with
  | nothing => rfl
  | joined htakes hvalue _ ih =>
    rw [List.cons_append, takeWords_flag (takeGiven_joined htakes hvalue p)]
    simp only [ih, applied, List.foldlM_cons, bind_assoc]
    rfl
  | apart value htakes hvalue _ ih =>
    rw [List.cons_append, List.cons_append, takeWords_apart htakes hvalue]
    simp only [ih, applied, List.foldlM_cons, bind_assoc]
    rfl
  | plain htakes hvalue _ ih =>
    rw [List.cons_append, takeWords_flag (takeGiven_plain htakes hvalue p)]
    simp only [ih, applied, List.foldlM_cons, bind_assoc]
    rfl

theorem wordsOf_cons {text : String} {word : Word} (h : wordOf text = .ok word)
    (hword : word ≠ .separator) (rest : List String) :
    wordsOf (text :: rest) = (wordsOf rest).map (word :: ·) := by
  simp only [wordsOf, h, bind, Except.bind, if_neg hword]
  cases wordsOf rest <;> rfl

theorem splitAssignment?_assigned {name : String} (h : '=' ∉ name.toList) (value : String) :
    splitAssignment? (name ++ "=" ++ value) = some (name, value) := by
  have htext : (name ++ "=" ++ value).toList = name.toList ++ '=' :: value.toList := by simp
  have hname : ∀ c ∈ name.toList, (c != '=') = true := by
    intro c hc
    exact bne_iff_ne.mpr fun heq => h (heq ▸ hc)
  rw [splitAssignment?, htext, List.dropWhile_append_of_pos hname,
    List.takeWhile_append_of_pos hname]
  simp

theorem lookup_flagNames_of_assigned {text : String} (h : '=' ∈ text.toList) :
    flagNames.lookup text = none := by
  have hnames : ∀ d ∈ flagNames, '=' ∉ d.1.toList := by decide +kernel
  rw [List.lookup_eq_none_iff]
  intro d hd
  exact bne_iff_ne.mpr fun heq => hnames d hd (heq ▸ h)

theorem wordOf_of_not_startsWith {text : String} (h : text.startsWith "-" = false) :
    wordOf text = .ok (.argument text) := by
  have hseparator : text ≠ "--" := by
    rintro rfl
    revert h
    decide +kernel
  simp only [wordOf, if_neg hseparator, h, Bool.not_false, Bool.true_or, if_true]

theorem wordOf_assigned {name : String} {flag : Flag} (h : (name, flag) ∈ flagNames)
    (value : String) :
    wordOf (name ++ "=" ++ value) = .ok (.flag ⟨flag, name, some value, false⟩) := by
  have hnames : ∀ d ∈ flagNames, "-".toList <+: d.1.toList ∧ '=' ∉ d.1.toList ∧
      flagNames.lookup d.1 = some d.2 := by decide +kernel
  obtain ⟨hhyphen, hname, hlookup⟩ : "-".toList <+: name.toList ∧ '=' ∉ name.toList ∧
      flagNames.lookup name = some flag := hnames _ h
  have hassigned : '=' ∈ (name ++ "=" ++ value).toList := by simp
  have hne {text : String} (htext : '=' ∉ text.toList) : name ++ "=" ++ value ≠ text :=
    fun heq => htext (heq ▸ hassigned)
  have hstarts : (name ++ "=" ++ value).startsWith "-" = true := by
    rw [String.startsWith_string_iff, String.append_assoc, String.toList_append]
    exact hhyphen.trans (List.prefix_append _ _)
  have hseparator : name ++ "=" ++ value ≠ "--" := hne (by decide)
  have hsingle : name ++ "=" ++ value ≠ "-" := hne (by decide)
  simp only [wordOf, if_neg hseparator, hstarts, hsingle, Bool.not_true, decide_false,
    Bool.or_false, Bool.false_eq_true, if_false, lookup_flagNames_of_assigned hassigned,
    splitAssignment?_assigned hname, Option.bind_some, hlookup, Option.map_none, Option.none_or,
    Option.map_some]

theorem gives_assigned (name : String) {flag : Flag} (h : (name, flag) ∈ flagNames)
    (htakes : flag.takesValue) (value : String) :
    Gives [name ++ "=" ++ value] [⟨flag, some value⟩] := by
  refine ⟨[.flag ⟨flag, name, some value, false⟩], ?_, .joined htakes rfl .nothing⟩
  rw [wordsOf_cons (wordOf_assigned h value) nofun, wordsOf]
  rfl

theorem separator_not_mem (h : Spells words settings) : Word.separator ∉ words := by
  induction h with
  | nothing => exact List.not_mem_nil
  | joined _ _ _ ih => simpa using ih
  | apart _ _ _ _ ih => simpa using ih
  | plain _ _ _ ih => simpa using ih

theorem wordsOf_append (h : wordsOf front = .ok words) (hwords : Word.separator ∉ words)
    (rest : List String) : wordsOf (front ++ rest) = (wordsOf rest).map (words ++ ·) := by
  induction front generalizing words with
  | nil =>
    cases h
    rw [List.nil_append]
    cases wordsOf rest <;> rfl
  | cons text more ih =>
    rcases hword : wordOf text with e | word
    · simp [wordsOf, hword, bind, Except.bind] at h
    · by_cases hseparator : word = .separator
      · simp only [wordsOf, hword, bind, Except.bind, if_pos hseparator, pure, Except.pure] at h
        cases h
        exact absurd (by simp [hseparator]) hwords
      · rw [wordsOf_cons hword hseparator] at h
        rcases hmore : wordsOf more with e | tail
        · rw [hmore] at h
          cases h
        · rw [hmore] at h
          cases h
          rw [List.cons_append, wordsOf_cons hword hseparator,
            ih hmore fun hmem => hwords (List.mem_cons_of_mem word hmem)]
          cases wordsOf rest <;> rfl

theorem gives_nothing : Gives [] [] :=
  ⟨[], rfl, .nothing⟩

theorem Spells.append {more : List Word} (h : Spells words settings) (h' : Spells more others) :
    Spells (words ++ more) (settings ++ others) := by
  induction h with
  | nothing => exact h'
  | joined htakes hvalue _ ih => exact .joined htakes hvalue ih
  | apart value htakes hvalue _ ih => exact .apart value htakes hvalue ih
  | plain htakes hvalue _ ih => exact .plain htakes hvalue ih

theorem Gives.append (h : Gives front settings) (h' : Gives back others) :
    Gives (front ++ back) (settings ++ others) := by
  obtain ⟨words, hwords, hspells⟩ := h
  obtain ⟨more, hmore, hspells'⟩ := h'
  refine ⟨words ++ more, ?_, hspells.append hspells'⟩
  rw [wordsOf_append hwords (separator_not_mem hspells), hmore]
  rfl

def requested : Except Stop Invocation → Except UsageError Request
  | .ok i => .ok (.run i)
  | .error (.request r) => .ok r
  | .error (.error e) => .error e

theorem request_of_takeWords {r : Except Stop Invocation} (hwords : wordsOf arguments = .ok words)
    {q : Progress} (hextra : q.extra = [])
    (h : takeWords words ⟨.empty, false, []⟩ = r.map fun i => { q with invocation := i }) :
    request arguments = requested r := by
  simp only [request, hwords, h]
  rcases r with (_ | _) | i
  · rfl
  · rfl
  · simp only [Except.map, hextra, List.isEmpty_nil, if_true, requested]

theorem takeWords_nil (p : Progress) : takeWords [] p = .ok p := by
  rw [takeWords]

theorem request_of_gives (h : Gives arguments settings) :
    request arguments = requested (applied settings .empty) := by
  obtain ⟨words, hwords, hspells⟩ := h
  refine request_of_takeWords hwords (q := ⟨.empty, false, []⟩) rfl ?_
  have htaken := takeWords_spelled hspells ⟨.empty, false, []⟩ []
  simp only [List.append_nil, takeWords_nil] at htaken
  rw [htaken]
  cases applied settings .empty <;> rfl

def Invocation.rendering (i : Invocation) (file eval : Option String) : Invocation :=
  { i with file, eval }

theorem apply_rendering {s : Setting} (h : s.flag.isOption) (i : Invocation)
    (file eval : Option String) :
    s.apply (i.rendering file eval) = (s.apply i).map fun i => i.rendering file eval := by
  obtain ⟨flag, value⟩ := s
  cases value with
  | none => cases flag <;> rfl
  | some value =>
    cases flag with
    | timeout =>
      simp only [Setting.apply, setValue]
      cases Numeral.float? value <;> rfl
    | seed =>
      simp only [Setting.apply, setValue]
      cases Numeral.integer? value <;> rfl
    | _ => first | rfl | cases h

theorem applied_rendering (h : ∀ s ∈ settings, s.flag.isOption) (i : Invocation)
    (file eval : Option String) :
    applied settings (i.rendering file eval) =
      (applied settings i).map fun i => i.rendering file eval := by
  induction settings generalizing i with
  | nil => rfl
  | cons s rest ih =>
    rw [List.forall_mem_cons] at h
    have hfront := apply_rendering h.1 i file eval
    simp only [applied, List.foldlM_cons] at ih ⊢
    rw [hfront]
    cases s.apply i with
    | error e => rfl
    | ok j => exact ih h.2 j

theorem takeWords_argument (hrest : Word.separator ∉ rest) (hp : p.fileTaken = false)
    (text : String) :
    takeWords (.argument text :: rest) p = takeWords rest (takeFile p (some text)) := by
  rw [takeWords]
  · rw [hp]
    rfl
  · rintro more rfl
    exact hrest List.mem_cons_self

theorem request_of_file {name : String} (hfront : Gives front settings) (hback : Gives back others)
    (hname : wordOf name = .ok (.argument name)) :
    request (front ++ name :: back) =
      requested (applied settings .empty >>= fun i =>
        applied others (i.rendering (some name) i.eval)) := by
  obtain ⟨words, hwords, hspells⟩ := hfront
  obtain ⟨more, hmore, hspells'⟩ := hback
  have hall : wordsOf (front ++ name :: back) = .ok (words ++ .argument name :: more) := by
    rw [wordsOf_append hwords (separator_not_mem hspells), wordsOf_cons hname nofun, hmore]
    rfl
  refine request_of_takeWords hall (q := ⟨.empty, true, []⟩) rfl ?_
  rw [takeWords_spelled hspells]
  cases applied settings .empty with
  | error e => rfl
  | ok i =>
    have hrest := takeWords_spelled hspells' (takeFile ⟨i, false, []⟩ (some name)) []
    simp only [List.append_nil, takeWords_nil] at hrest
    have hfile : (takeFile ⟨i, false, []⟩ (some name)).invocation =
        i.rendering (some name) i.eval := rfl
    simp only [bind, Except.bind, takeWords_argument (separator_not_mem hspells'), hrest, hfile]
    cases applied others (i.rendering (some name) i.eval) <;> rfl

theorem open_of_applied (h : ∀ s ∈ settings, s.flag.isOption)
    (hi : applied settings .empty = .ok i) : i.file = none ∧ i.eval = none := by
  have hbare : applied settings .empty =
      (applied settings .empty).map fun i => i.rendering none none :=
    applied_rendering h .empty none none
  rw [hi] at hbare
  have hi : i = i.rendering none none := Except.ok.inj hbare
  rw [hi]
  exact ⟨rfl, rfl⟩

/-- A file and a text among the same options ask for renderings that differ in nothing else. -/
theorem requests_among_options {name text : String} {inline : List String}
    (hfront : Gives front settings) (hback : Gives back others)
    (hoptions : ∀ s ∈ settings ++ others, s.flag.isOption)
    (hname : wordOf name = .ok (.argument name)) (hinline : Gives inline [⟨.eval, some text⟩]) :
    let result := applied (settings ++ others) .empty
    request (front ++ name :: back) =
        requested (result.map fun i => i.rendering (some name) none) ∧
      request (front ++ inline ++ back) =
        requested (result.map fun i => i.rendering none (some text)) := by
  intro result
  obtain ⟨hsettings, hothers⟩ := List.forall_mem_append.mp hoptions
  have hresult : result = applied settings .empty >>= applied others := applied_append ..
  rw [request_of_file hfront hback hname, request_of_gives ((hfront.append hinline).append hback),
    applied_append, applied_append, hresult]
  rcases hi : applied settings .empty with e | i
  · exact ⟨rfl, rfl⟩
  · obtain ⟨hfile, heval⟩ := open_of_applied hsettings hi
    have htext : applied [⟨.eval, some text⟩] i = .ok (i.rendering none (some text)) := by
      rw [Invocation.rendering, ← hfile]
      rfl
    have hboth (file eval : Option String) := applied_rendering hothers i file eval
    constructor
    · change requested (applied others (i.rendering (some name) i.eval)) = _
      rw [heval]
      exact congrArg requested (hboth (some name) none)
    · change requested (applied [⟨.eval, some text⟩] i >>= applied others) = _
      rw [htext]
      exact congrArg requested (hboth none (some text))

theorem error_of_apply {s : Setting} {stop : Stop} (h : s.flag.isOption)
    (hstop : s.apply i = .error stop) : ∃ e, stop = .error e := by
  obtain ⟨flag, value⟩ := s
  cases value with
  | none => cases flag <;> first | exact absurd h Bool.false_ne_true | cases hstop
  | some value =>
    cases flag with
    | timeout =>
      simp only [Setting.apply, setValue] at hstop
      split at hstop
      · cases hstop
      · exact ⟨_, (Except.error.inj hstop).symm⟩
    | seed =>
      simp only [Setting.apply, setValue] at hstop
      split at hstop
      · cases hstop
      · exact ⟨_, (Except.error.inj hstop).symm⟩
    | _ => first | exact absurd h Bool.false_ne_true | cases hstop

theorem error_of_applied (h : ∀ s ∈ settings, s.flag.isOption) {i : Invocation} {stop : Stop}
    (hstop : applied settings i = .error stop) : ∃ e, stop = .error e := by
  induction settings generalizing i with
  | nil => cases hstop
  | cons s rest ih =>
    obtain ⟨hs, hrest⟩ := List.forall_mem_cons.mp h
    rw [applied, List.foldlM_cons] at hstop
    rcases happly : s.apply i with stop' | j
    · rw [happly] at hstop
      obtain rfl : stop' = stop := Except.error.inj hstop
      exact error_of_apply hs happly
    · rw [happly] at hstop
      exact ih hrest hstop

def Invocation.told (i : Invocation) (ending : Ending) : Ending :=
  if i.verbose then ending else { ending with journal := [] }

theorem Invocation.status_told (i : Invocation) (ending : Ending) :
    (i.told ending).status = ending.status := by
  unfold told
  split <;> rfl

theorem Invocation.out_told (i : Invocation) (ending : Ending) :
    (i.told ending).out = ending.out := by
  unfold told
  split <;> rfl

variable {H σ : Type} {host : Evaluation.Host H σ} {state : Option Int → σ} {fs : Files.FileSystem}
  {session : Evaluation.Session H σ} {lines : List String}

theorem run_eq_told (h : request arguments = .ok (.run i)) :
    run host state fs arguments lines = i.told (invoke host state fs i lines) := by
  unfold run
  rw [h]
  rfl

theorem invoke_eq_render {source : String × String} (hsession : prepare state fs i = .ok session)
    (hsource : sourceOf fs i = .ok (some source)) :
    invoke host state fs i lines = render host session source (prepareJournal fs i) := by
  unfold invoke
  rw [hsession, hsource]

end TagTemplate.CommandLine
