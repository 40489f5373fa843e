import TagTemplate.Proofs.Template.Grammar
import TagTemplate.Template.Reader

/-! What a character does to the innermost construct, told from both sides: the moves that the parts
of a derivation make, and what can be concluded from a move. -/
namespace TagTemplate.Template

theorem push_append_ofList (s : String) (c : Char) (cs : List Char) :
    s.push c ++ String.ofList cs = s ++ String.ofList (c :: cs) := by
  rw [String.push_eq_append, String.append_assoc, String.singleton_eq_ofList,
    ← String.ofList_append, List.singleton_append]

theorem escapedText_plain (c : Char) (delimiters : List Char) :
    escapedText c false delimiters = String.singleton c := by
  simp [escapedText]

theorem escapedText_pair (c : Char) (delimiters : List Char) :
    escapedText c true delimiters =
      String.ofList (Grammar.Letter.content (.pair c : Grammar.Letter delimiters)) := by
  unfold escapedText Grammar.Letter.content
  by_cases h : c ∈ delimiters
  · simp [h]
  · simp [h]

theorem marks_ne_of_isSpace {c : Char} (h : isSpace c) :
    c ≠ tagClose ∧ c ≠ commentMark ∧ c ≠ assignMark := by
  refine ⟨?_, ?_, ?_⟩ <;> rintro rfl <;> revert h <;> decide

theorem marks_ne_of_isNameChar {c : Char} (h : isNameChar c) :
    c ≠ tagClose ∧ c ≠ commentMark ∧ c ≠ assignMark := by
  refine ⟨?_, ?_, ?_⟩ <;> rintro rfl <;> revert h <;> decide

theorem isSpace_eq_false_of_isNameChar {c : Char} (h : isNameChar c) : isSpace c = false := by
  apply Bool.eq_false_iff.mpr
  intro hs
  simp only [isSpace, Bool.or_eq_true, beq_iff_eq] at hs
  rcases hs with rfl | rfl <;> revert h <;> decide

variable {enclosed : Bool} {n : Nat} {c : Char}

theorem move_tag_space (h : isSpace c) (name : String) (arguments : List Node) (turn : Nat) :
    (Construct.holder (.tag name arguments turn)).move enclosed n c =
      .ok (.take (.holder (.tag name arguments (
        if turn = 0 then if name = "" then 0 else 1
        else if turn ≤ arguments.length then turn + 1 else turn)))) := by
  obtain ⟨h1, h2, h3⟩ := marks_ne_of_isSpace h
  by_cases ht : turn = 0 <;> simp [Construct.move, moveTag, moveName, h, h1, h2, h3, ht]

theorem move_tag_nameChar (h : isNameChar c) (name : String) (arguments : List Node) :
    (Construct.holder (.tag name arguments 0)).move enclosed n c =
      .ok (.take (.holder (.tag (name.push c) arguments 0))) := by
  obtain ⟨h1, h2, h3⟩ := marks_ne_of_isNameChar h
  simp [Construct.move, moveTag, moveName, isSpace_eq_false_of_isNameChar h, h, h1, h2, h3]

theorem move_declaration_space (h : isSpace c) (name : String) (value : Option Node) (turn : Nat) :
    (Construct.holder (.declaration name value turn)).move enclosed n c =
      .ok (.take (.holder (.declaration name value (
        if value.isSome then turn + 1 else turn)))) := by
  simp [Construct.move, moveDeclaration, h, (marks_ne_of_isSpace h).1]

end TagTemplate.Template

namespace TagTemplate.Grammar
open Template

def Value.initial : Value → Construct
  | tag _ => .emptyTag
  | quoted quote _ => .quoted quote "" false
  | template _ => .emptyTemplate

theorem Value.opening?_opening (v : Value) : Construct.opening? v.opening = some v.initial := by
  cases v with
  | quoted quote _ => cases quote <;> rfl
  | _ => rfl

theorem Value.marks_ne_opening (v : Value) :
    v.opening ≠ tagClose ∧ v.opening ≠ commentMark ∧ v.opening ≠ assignMark ∧
      isSpace v.opening = false := by
  cases v with
  | quoted quote _ => cases quote <;> simp only [opening] <;> decide
  | _ => simp only [opening]; decide

theorem Value.move_tag_opening (v : Value) (name : String) (arguments : List Node) {turn : Nat}
    (h : 0 < turn) (enclosed : Bool) (n : Nat) :
    (Construct.holder (.tag name arguments turn)).move enclosed n v.opening =
      .ok (.enter (.tag name arguments turn) v.initial) := by
  obtain ⟨h1, h2, h3, h4⟩ := v.marks_ne_opening
  simp [Construct.move, moveTag, moveValue, v.opening?_opening, h1, h2, h3, h4, Nat.ne_of_gt h]

theorem Value.move_declaration_opening (v : Value) (name : String) (enclosed : Bool) (n : Nat) :
    (Construct.holder (.declaration name none 1)).move enclosed n v.opening =
      .ok (.enter (.declaration name none 1) v.initial) := by
  obtain ⟨h1, -, -, h4⟩ := v.marks_ne_opening
  simp [Construct.move, moveDeclaration, moveValue, v.opening?_opening, h1, h4]

end TagTemplate.Grammar

namespace TagTemplate.Template
open Grammar

variable {enclosed escaped : Bool} {n : Nat} {c : Char} {next : Construct} {holder : Holder}

theorem exists_letter (c : Char) (escaped : Bool) (special : List Char)
    (h : escaped = false → c ∉ special) :
    ∃ l : Letter special, l.spelling = escapeIf escaped ++ [c] ∧
      escapedText c escaped special = String.ofList l.content := by
  cases escaped with
  | false => exact ⟨.plain c (h rfl), rfl, by simp [escapedText_plain, Letter.content]⟩
  | true => exact ⟨.pair c, rfl, escapedText_pair c special⟩

theorem moveTemplate_eq_take {children : List Node}
    (h : moveTemplate enclosed children escaped c = .take next) :
    (escaped = false ∧ c = escapeMark ∧ next = .holder (.template children true)) ∨
      ∃ l : Letter templateDelimiters, l.spelling = escapeIf escaped ++ [c] ∧
        next = .holder (.template
          (Node.appendText children (String.ofList l.content) l.spelling.length) false) := by
  unfold moveTemplate at h
  split at h
  · next hc =>
    cases h
    exact .inl ⟨by simpa using hc.2, hc.1, rfl⟩
  · next h1 =>
    split at h
    · contradiction
    · next h2 =>
      split at h
      · split at h <;> cases h
      · next h3 =>
        cases h
        obtain ⟨l, hl, hcontent⟩ := exists_letter c escaped templateDelimiters (by
          rintro rfl
          simp_all [templateDelimiters])
        refine .inr ⟨l, hl, ?_⟩
        rw [hcontent, hl]
        cases escaped <;> rfl

theorem moveTemplate_eq_close {children : List Node}
    (h : moveTemplate enclosed children escaped c = .close) :
    enclosed = true ∧ escaped = false ∧ c = templateMark := by
  unfold moveTemplate at h
  grind

theorem moveTemplate_eq_enter {children : List Node}
    (h : moveTemplate enclosed children escaped c = .enter holder next) :
    escaped = false ∧ holder = .template children false ∧
      ((c = tagOpen ∧ next = .emptyTag) ∨
        (enclosed = false ∧ c = templateMark ∧ next = .emptyTemplate)) := by
  unfold moveTemplate at h
  grind

theorem moveQuoted_eq_take {quote : Quote} {content : String}
    (h : moveQuoted enclosed quote content escaped c = .take next) (he : enclosed = true) :
    (escaped = false ∧ c = escapeMark ∧ next = .quoted quote content true) ∨
      ∃ l : Letter quote.delimiters, l.spelling = escapeIf escaped ++ [c] ∧
        next = .quoted quote (content ++ String.ofList l.content) false := by
  unfold moveQuoted at h
  split at h
  · next hc =>
    cases h
    exact .inl ⟨by simpa using hc.2, hc.1, rfl⟩
  · next h1 =>
    split at h
    · contradiction
    · next h2 =>
      cases h
      obtain ⟨l, hl, hcontent⟩ := exists_letter c escaped quote.delimiters (by
        rintro rfl
        simp_all [Quote.delimiters])
      exact .inr ⟨l, hl, by rw [hcontent]⟩

theorem moveQuoted_eq_close {quote : Quote} {content : String}
    (h : moveQuoted enclosed quote content escaped c = .close) :
    escaped = false ∧ c = quote.mark := by
  unfold moveQuoted at h
  grind

theorem moveQuoted_ne_enter {quote : Quote} {content : String} :
    moveQuoted enclosed quote content escaped c ≠ .enter holder next := by
  unfold moveQuoted
  grind

theorem moveComment_eq_take {content : String} (h : moveComment enclosed content c = .take next)
    (he : enclosed = true) : c ≠ tagClose ∧ next = .comment (content.push c) := by
  unfold moveComment at h
  grind

theorem moveComment_eq_close {content : String} (h : moveComment enclosed content c = .close) :
    c = tagClose := by
  unfold moveComment at h
  grind

theorem moveComment_ne_enter {content : String} :
    moveComment enclosed content c ≠ .enter holder next := by
  unfold moveComment
  grind

theorem moveValue_eq_ok {m : Move} (h : moveValue holder c = .ok m) :
    ∃ next, Construct.opening? c = some next ∧ m = .enter holder next := by
  unfold moveValue at h
  grind

theorem moveTag_zero_eq_take {name : String} {arguments : List Node}
    (h : moveTag enclosed n name arguments 0 c = .ok (.take next)) :
    (c = commentMark ∧ n = 0 ∧ next = .comment "") ∨
    (c = assignMark ∧ name ≠ "" ∧ next = .holder (.declaration name none 1)) ∨
    (isSpace c ∧ next = .holder (.tag name arguments (if name = "" then 0 else 1))) ∨
    (isNameChar c ∧ next = .holder (.tag (name.push c) arguments 0)) := by
  unfold moveTag at h
  split at h
  · split at h <;> cases h
  split at h
  · next hc => cases h; exact .inl ⟨hc.1, hc.2, rfl⟩
  split at h
  · next hc => grind
  rw [if_pos rfl, moveName] at h
  grind

theorem moveTag_pos_eq_take {name : String} {arguments : List Node} {turn : Nat} (ht : 0 < turn)
    (h : moveTag enclosed n name arguments turn c = .ok (.take next)) :
    (c = commentMark ∧ n = 0 ∧ next = .comment "") ∨
    (c = assignMark ∧ arguments = [] ∧ next = .holder (.declaration name none 1)) ∨
    (isSpace c ∧ ∃ later, 0 < later ∧ next = .holder (.tag name arguments later)) := by
  unfold moveTag at h
  split at h
  · split at h <;> cases h
  split at h
  · next hc => cases h; exact .inl ⟨hc.1, hc.2, rfl⟩
  split at h
  · next hc => grind
  rw [if_neg (Nat.ne_of_gt ht)] at h
  split at h
  · next hc =>
    cases h
    exact .inr (.inr ⟨hc, _, by split <;> omega, rfl⟩)
  · obtain ⟨_, -, hm⟩ := moveValue_eq_ok h
    contradiction

theorem moveTag_eq_close {name : String} {arguments : List Node} {turn : Nat}
    (h : moveTag enclosed n name arguments turn c = .ok .close) :
    name ≠ "" ∧ c = tagClose := by
  unfold moveTag moveName moveValue at h
  split at h
  · next hc =>
    split at h
    · contradiction
    · next hn => exact ⟨hn, hc.1⟩
  · grind

theorem moveTag_eq_enter {name : String} {arguments : List Node} {turn : Nat}
    (h : moveTag enclosed n name arguments turn c = .ok (.enter holder next)) :
    0 < turn ∧ Construct.opening? c = some next ∧ holder = .tag name arguments turn := by
  unfold moveTag at h
  split at h
  · split at h <;> cases h
  split at h
  · cases h
  split at h
  · grind
  split at h
  · unfold moveName at h
    grind
  split at h
  · cases h
  obtain ⟨_, hopen, hm⟩ := moveValue_eq_ok h
  cases hm
  exact ⟨by omega, hopen, rfl⟩

theorem moveDeclaration_eq_take {name : String} {value : Option Node} {turn : Nat}
    (h : moveDeclaration enclosed name value turn c = .ok (.take next)) :
    isSpace c ∧
      next = .holder (.declaration name value (if value.isSome then turn + 1 else turn)) := by
  unfold moveDeclaration moveValue at h
  grind

theorem moveDeclaration_eq_close {name : String} {value : Option Node} {turn : Nat}
    (h : moveDeclaration enclosed name value turn c = .ok .close) :
    value.isSome ∧ c = tagClose := by
  unfold moveDeclaration moveValue at h
  cases value <;> grind

theorem moveDeclaration_eq_enter {name : String} {value : Option Node} {turn : Nat}
    (h : moveDeclaration enclosed name value turn c = .ok (.enter holder next)) :
    value = none ∧ Construct.opening? c = some next ∧ holder = .declaration name value turn := by
  unfold moveDeclaration moveValue at h
  cases value <;> grind

end TagTemplate.Template
