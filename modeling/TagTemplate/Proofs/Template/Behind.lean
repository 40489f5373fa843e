import TagTemplate.Proofs.Template.Begun

/-! Where a reader of documents stands. Its state behind a text is the beginning of a derivation of
that text, construct inside construct, and so every tree that it gives is derived. -/
namespace TagTemplate.Template.Reader
open Grammar

/-- The text in front of a body that `c` opens: each holder waits behind what has been read of it. -/
def Around : List (Holder × Nat) → Char → List Char → Prop
  | [], _, before => before = []
  | (holder, n) :: outer, c, before =>
    ∃ earlier body, before = earlier ++ body ++ [c] ∧ n = body.length ∧
      Expects (!outer.isEmpty) holder c body ∧ Around outer (opening (.holder holder)) earlier

def Behind (s : State) (text : List Char) : Prop :=
  s.delimited = false ∧ ∃ before body, text = before ++ body ∧ s.length = body.length ∧
    Begun (!s.outer.isEmpty) s.inner body ∧ Around s.outer (opening s.inner) before

variable {limit : Nat} {s t : State} {c : Char} {text cs : List Char} {node : Node}

theorem behind_start : Behind (.start .emptyTemplate false) [] :=
  ⟨rfl, [], [], rfl, rfl, Begun.document [] false, rfl⟩

theorem enclosed_of_not_delimited (h : s.delimited = false) : s.enclosed = !s.outer.isEmpty := by
  rw [State.enclosed, h, Bool.false_or]

theorem Around.receive {holder : Holder} {n : Nat} {outer : List (Holder × Nat)} {v : Value}
    {before : List Char} (h : Around ((holder, n) :: outer) v.opening before) :
    ∃ earlier body, before ++ v.body ++ [v.closing] = earlier ++ (body ++ v.spelling) ∧
      n = body.length ∧
      Begun (!outer.isEmpty) (.holder (holder.receive v.node)) (body ++ v.spelling) ∧
      Around outer (opening (.holder (holder.receive v.node))) earlier := by
  obtain ⟨earlier, body, rfl, hn, hexpects, houter⟩ := h
  refine ⟨earlier, body, by simp [Value.spelling, Value.wrap], hn, hexpects v rfl, ?_⟩
  cases holder <;> exact houter

theorem Behind.of_step (h : Behind s text) (hs : step limit s c = .ok (.reading t)) :
    Behind t (text ++ [c]) := by
  obtain ⟨hd, before, body, rfl, hlength, hbegun, haround⟩ := h
  obtain ⟨m, hm, happly⟩ := step_eq_ok hs
  rw [enclosed_of_not_delimited hd, hlength] at hm
  cases m with
  | take next =>
    cases happly
    refine ⟨hd, before, body ++ [c], by simp, by simp [hlength], hbegun.take hm, ?_⟩
    rw [hbegun.opening_take hm]
    exact haround
  | close =>
    obtain ⟨he, v, hopening, rfl, rfl, hnode⟩ := hbegun.close hm
    obtain ⟨inner, n, outer, delimited⟩ := s
    cases outer with
    | nil => contradiction
    | cons frame outer =>
      obtain ⟨holder, n'⟩ := frame
      cases happly
      simp only at hlength hnode hopening haround
      subst hlength
      rw [← hopening] at haround
      obtain ⟨earlier, before', htext, rfl, hreceived, houter⟩ := haround.receive
      rw [← hnode]
      exact ⟨hd, earlier, _, htext, by simp, hreceived, houter⟩
  | enter holder next =>
    obtain ⟨hinner, rfl, hnext, hexpects⟩ := hbegun.enter hm
    simp only [State.apply] at happly
    split at happly
    · cases happly
      refine ⟨hd, before ++ body ++ [opening next], [], by simp, rfl, hnext, ?_⟩
      rw [hinner] at haround
      exact ⟨before, body, rfl, hlength, hexpects, haround⟩
    · contradiction

theorem Behind.step_ne_closed (h : Behind s text) : step limit s c ≠ .ok (.closed node) := by
  intro hs
  obtain ⟨hd, before, body, rfl, hlength, hbegun, haround⟩ := h
  obtain ⟨m, hm, happly⟩ := step_eq_ok hs
  rw [enclosed_of_not_delimited hd, hlength] at hm
  cases m with
  | take next => cases happly
  | close =>
    obtain ⟨inner, n, outer, delimited⟩ := s
    cases outer with
    | nil => exact absurd (hbegun.close hm).1 Bool.false_ne_true
    | cons frame outer => cases happly
  | enter holder next =>
    simp only [State.apply] at happly
    split at happly <;> cases happly

theorem Behind.of_run? (h : Behind s text) (hr : run? limit s cs = some t) : Behind t (text ++ cs) := by
  induction cs generalizing s text with
  | nil =>
    obtain rfl : s = t := Option.some.inj hr
    simpa using h
  | cons c rest ih =>
    simp only [run?] at hr
    split at hr
    · next u hu => simpa using ih (h.of_step hu) hr
    · contradiction

theorem document_of_begun {inner : Construct} (h : Begun false inner text) :
    ∃ (sections : List Section) (escaped : Bool),
      inner = .holder (.template (Node.mergeTexts (sections.map Section.node)) escaped) ∧
        (⟨sections, escaped⟩ : Document).spelling = text := by
  cases h with
  | document sections escaped => exact ⟨sections, escaped, rfl, rfl⟩

theorem Behind.of_finish? (h : Behind s text) (hf : finish? s = some node) :
    ∃ d : Document, d.spelling = text ∧ d.tree = node := by
  obtain ⟨hd, before, body, rfl, hlength, hbegun, haround⟩ := h
  obtain ⟨inner, n, outer, delimited⟩ := s
  cases outer with
  | nil =>
    obtain rfl : before = [] := haround
    obtain rfl : delimited = false := hd
    obtain ⟨sections, escaped, rfl, hspelling⟩ := document_of_begun hbegun
    refine ⟨⟨sections, escaped⟩, by simpa using hspelling, ?_⟩
    rw [show n = (⟨sections, escaped⟩ : Document).spelling.length by rw [hspelling]; exact hlength]
      at hf
    cases escaped <;> cases hf <;> simp [Document.tree, loneEscapeNodes, Node.mergeTexts_append_text,
      Construct.toNode, Holder.toNode]
  | cons frame outer => simp [finish?, State.enclosed] at hf

/-- Every tree that is read from behind a text is the tree of a derivation of all of it. -/
theorem Behind.of_read (h : Behind s text) {index : Int} (hr : read limit s index cs = .ok node) :
    ∃ d : Document, d.spelling = text ++ cs ∧ d.tree = node := by
  induction cs generalizing s text index with
  | nil =>
    simp only [read] at hr
    split at hr
    · next hf =>
      cases hr
      simpa using h.of_finish? hf
    · cases hr
  | cons c rest ih =>
    simp only [read] at hr
    split at hr
    · cases hr
    · next hs => exact absurd hs h.step_ne_closed
    · next t hs => simpa using ih (h.of_step hs) hr

end TagTemplate.Template.Reader
