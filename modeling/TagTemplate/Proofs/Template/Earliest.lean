import TagTemplate.Proofs.Template.Documents

/-! Errors come at the earliest character that can show them. Whatever the reader has taken can be
gone on with to a document, and what it has refused cannot. -/
namespace TagTemplate.Template
open Grammar Reader

def Compilable (cs : List Char) : Prop :=
  ∃ limit t, compileWithin limit (String.ofList cs) = .ok t

def Viable (cs : List Char) : Prop :=
  ∃ more, Compilable (cs ++ more)

theorem compilable_iff {cs : List Char} : Compilable cs ↔ ∃ d : Document, d.spelling = cs := by
  constructor
  · rintro ⟨limit, t, h⟩
    rw [compileWithin_eq_ok_iff, readDocument_eq_ok_iff, String.toList_ofList] at h
    obtain ⟨d, hspelling, -⟩ := h
    exact ⟨d, hspelling⟩
  · rintro ⟨d, rfl⟩
    refine ⟨d.tree.nesting, d.tree, ?_⟩
    rw [compileWithin_eq_ok_iff, String.toList_ofList]
    exact readDocument_spelling d.tree.nesting d (Nat.le_succ _)

theorem Viable.of_append {cs more : List Char} (h : Viable (cs ++ more)) : Viable cs := by
  obtain ⟨rest, hrest⟩ := h
  exact ⟨more ++ rest, by rwa [List.append_assoc] at hrest⟩

def emptyString : Value := .quoted .single []

theorem exists_value_of_begun {inner : Construct} {cs : List Char} (h : Begun true inner cs) :
    ∃ (more : List Char) (v : Value), v.opening = opening inner ∧ v.body = cs ++ more := by
  cases h with
  | template items escaped =>
    cases escaped with
    | false => exact ⟨[], .template items, rfl, by simp [Value.body, escapeIf]⟩
    | true =>
      -- Any character completes the pair that the escape begins.
      refine ⟨[escapeMark], .template (items ++ [.letter (.pair escapeMark)]), rfl, ?_⟩
      simp [Value.body, Item.spellings_eq_flatMap, Item.spelling, Letter.spelling, escapeIf]
  | quoted quote letters escaped =>
    cases escaped with
    | false => exact ⟨[], .quoted quote letters, rfl, by simp [Value.body, escapeIf]⟩
    | true =>
      refine ⟨[escapeMark], .quoted quote (letters ++ [.pair escapeMark]), rfl, ?_⟩
      simp [Value.body, Letter.spelling, escapeIf]
  | comment text unclosed => exact ⟨[], .tag (.comment text unclosed), rfl, by simp [Value.body, Tag.body]⟩
  | name front letters named =>
    let n : Name := ⟨letters ++ ['_'], by simp, by
      simp only [List.mem_append, List.mem_singleton]
      rintro c (hc | rfl)
      · exact named c hc
      · rfl⟩
    exact ⟨['_'], .tag (.bare front n noSpaces), rfl, by simp [Value.body, Tag.body, n, noSpaces]⟩
  | gap front name gap => exact ⟨[], .tag (.bare front name gap.toSpaces), rfl, by simp [Value.body, Tag.body]⟩
  | arguments front name gap first rest back =>
    exact ⟨[], .tag (.call front name gap first rest back), rfl, by simp [Value.body]⟩
  | assigned front name behind lead =>
    refine ⟨emptyString.spelling, .tag (.declaration front name behind lead emptyString noSpaces),
      rfl, ?_⟩
    simp [Value.body, Tag.body, Value.spelling, noSpaces]
  | valued front name behind lead value back =>
    exact ⟨[], .tag (.declaration front name behind lead value back), rfl, by simp [Value.body]⟩

/-- From the innermost construct outwards, everything that is open can be completed. -/
theorem exists_document_of_around {outer : List (Holder × Nat)} {inner : Construct}
    {before cs : List Char} (h : Begun (!outer.isEmpty) inner cs)
    (ha : Around outer (opening inner) before) :
    ∃ (more : List Char) (d : Document), d.spelling = before ++ cs ++ more := by
  induction outer generalizing inner before cs with
  | nil =>
    obtain rfl : before = [] := ha
    obtain ⟨sections, escaped, -, hspelling⟩ := document_of_begun h
    exact ⟨[], ⟨sections, escaped⟩, by simpa using hspelling⟩
  | cons frame outer ih =>
    obtain ⟨holder, n⟩ := frame
    obtain ⟨more, v, hopening, hbody⟩ := exists_value_of_begun h
    rw [← hopening] at ha
    obtain ⟨earlier, body, htext, -, hreceived, houter⟩ := ha.receive
    obtain ⟨further, d, hd⟩ := ih hreceived houter
    refine ⟨more ++ [v.closing] ++ further, d, ?_⟩
    rw [hd, ← htext, hbody]
    simp

theorem viable_of_behind {s : State} {text : List Char} (h : Behind s text) : Viable text := by
  obtain ⟨-, before, body, rfl, -, hbegun, haround⟩ := h
  obtain ⟨more, d, hd⟩ := exists_document_of_around hbegun haround
  exact ⟨more, compilable_iff.mpr ⟨d, hd⟩⟩

theorem not_viable_of_step_eq_error {limit : Nat} {t : State} {p : List Char} {c : Char}
    {fault : Fault} (hp : run? limit (.start .emptyTemplate false) p = some t)
    (hc : step limit t c = .error fault) (hfault : fault ≠ .nestingTooDeep) :
    ¬Viable (p ++ [c]) := by
  rintro ⟨more, hmore⟩
  obtain ⟨d, hd⟩ := compilable_iff.mp hmore
  have hrefused : readDocument limit d.spelling = .error ⟨fault, 0 + p.length⟩ := by
    rw [hd, List.append_assoc]
    exact read_append_of_step_eq_error hp hc 0 more
  have hread := readDocument_spelling (max limit d.tree.nesting) d (by omega)
  -- Within a limit that the document keeps to, the refusal would be there, too.
  rcases read_eq_or_too_deep (Nat.le_max_left limit d.tree.nesting) (.start .emptyTemplate false) 0
    d.spelling with heq | ⟨j, hj⟩
  · cases hrefused.symm.trans (heq.trans hread)
  · cases hrefused.symm.trans hj
    exact hfault rfl

/-- An error other than for nesting stands at the earliest character that shows it: a document can
begin with what is in front of that character. Either the source is over there with something left
open, and a document can begin with all of it, or no document begins with the character, too. -/
theorem compile_error_earliest {source : String} {e : SyntaxError}
    (h : compile source = .error (.malformed e)) (hfault : e.fault ≠ .nestingTooDeep) :
    Viable (source.toList.take e.index) ∧
      ((e.fault = .unexpectedEnd ∧ e.index + 1 = source.toList.length ∧ Viable source.toList) ∨
        ¬Viable (source.toList.take (e.index + 1))) := by
  cases hr : readDocument nestingLimit source.toList with
  | ok t =>
    rw [compile, compileWithin_eq_ok_iff.mpr hr] at h
    cases h
  | error r =>
    obtain ⟨e', he', hf, -, -, hindex⟩ := compileWithin_of_refusal hr
    obtain rfl : e = e' := by
      rw [compile, he'] at h
      cases h
      rfl
    simp only [Refusal.reported, if_neg (hf ▸ hfault)] at hindex
    rcases read_eq_error hr with ⟨t, ht, -, rfl⟩ | ⟨p, c, rest, t, htext, ht, hc, hi⟩
    · have hviable : Viable source.toList := viable_of_behind (behind_start.of_run? ht)
      constructor
      · rw [← List.take_append_drop e.index source.toList] at hviable
        exact hviable.of_append
      · have hlast : (e.index : Int) = 0 + source.toList.length - 1 := hindex
        exact .inl ⟨hf, by omega, hviable⟩
    · have hp : e.index = p.length := by omega
      rw [htext, hp]
      constructor
      · rw [List.take_left]
        exact viable_of_behind (behind_start.of_run? ht)
      · right
        rw [List.append_cons, List.take_left' (by simp)]
        exact not_viable_of_step_eq_error ht hc (hf ▸ hfault)

/-- A declaration can go on in front of its closing brace, but not behind it without a value. -/
theorem valueless_declaration_earliest :
    compile "\x7bn=\x7d." = .error (.malformed
      ⟨.unexpectedEnd, "Unexpected end of input", "\x7bn=\x7d.".toList, 3, by decide⟩) ∧
    Viable "\x7bn=".toList ∧ ¬Viable "\x7bn=\x7d".toList := by
  have h : compile "\x7bn=\x7d." = .error (.malformed
      ⟨.unexpectedEnd, "Unexpected end of input", "\x7bn=\x7d.".toList, 3, by decide⟩) := by rfl
  obtain ⟨hviable, ⟨-, hlength, -⟩ | hfinal⟩ := compile_error_earliest h (by decide)
  · exact absurd hlength (by decide)
  · exact ⟨h, hviable, hfinal⟩

end TagTemplate.Template
