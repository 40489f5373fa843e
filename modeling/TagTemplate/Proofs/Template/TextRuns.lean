import TagTemplate.Proofs.Template.Tree

/-! Texts appended to the children of a template, with other children appended in between. A run of
texts makes one text, or lengthens the one that stands in front of it, and loses nothing. -/
namespace TagTemplate.Template.Node

theorem appendText_concat (front : List Node) (last : Node) (s : String) (n : Nat) :
    appendText (front ++ [last]) s n = front ++ appendText [last] s n := by
  induction front with
  | nil => rfl
  | cons first rest ih =>
    cases rest with
    | nil => simp only [List.cons_append, List.nil_append, appendText]
    | cons second rest =>
      simp only [List.cons_append, appendText] at ih ⊢
      rw [ih]

theorem appendText_singleton_of_isText_eq_false {last : Node} (h : last.isText = false)
    (s : String) (n : Nat) : appendText [last] s n = [last, text s n] := by
  cases last with
  | text => contradiction
  | _ => rfl

/-- A text to be appended. It stands for as many characters as it has, unless their number is
given. -/
structure Addition where
  content : String
  consumed : Option Nat

def Addition.count (a : Addition) : Nat := a.consumed.getD a.content.length

/-- What is done to the children of a template, one thing after another. -/
inductive Step where
  | append (a : Addition)
  | child (node : Node)

def Step.run (children : List Node) : Step → List Node
  | append a => appendText children a.content a.count
  | child node => children ++ [node]

def joinedContent (run : List Addition) : String :=
  String.join (run.map Addition.content)

def joinedCount (run : List Addition) : Nat :=
  run.foldr (fun a n => a.count + n) 0

def newText : List Addition → List Node
  | [] => []
  | run => [text (joinedContent run) (joinedCount run)]

/-- A child appended by itself, and all the texts that are appended before the next one. -/
structure Stretch where
  child : Node
  run : List Addition

def Stretch.steps (s : Stretch) : List Step :=
  .child s.child :: s.run.map .append

def Stretch.nodes (s : Stretch) : List Node :=
  match s.child with
  | text content n => [text (content ++ joinedContent s.run) (n + joinedCount s.run)]
  | child => child :: newText s.run

theorem joinedContent_cons (a : Addition) (run : List Addition) :
    joinedContent (a :: run) = a.content ++ joinedContent run := by
  simp [joinedContent]

theorem joinedCount_cons (a : Addition) (run : List Addition) :
    joinedCount (a :: run) = a.count + joinedCount run :=
  rfl

theorem foldl_run_text (front : List Node) (s : String) (n : Nat) (run : List Addition) :
    (run.map Step.append).foldl Step.run (front ++ [text s n]) =
      front ++ [text (s ++ joinedContent run) (n + joinedCount run)] := by
  induction run generalizing s n with
  | nil => simp [joinedContent, joinedCount]
  | cons a rest ih =>
    simp only [List.map_cons, List.foldl_cons, Step.run, appendText_concat, appendText, ih,
      joinedContent_cons, joinedCount_cons, String.append_assoc, Nat.add_assoc]

theorem foldl_run_of_new {front : List Node}
    (h : ∀ s n, appendText front s n = front ++ [text s n]) (run : List Addition) :
    (run.map Step.append).foldl Step.run front = front ++ newText run := by
  cases run with
  | nil => simp [newText]
  | cons a rest =>
    simp only [List.map_cons, List.foldl_cons, Step.run, h, foldl_run_text, newText,
      joinedContent_cons, joinedCount_cons]

theorem foldl_steps (front : List Node) (s : Stretch) :
    s.steps.foldl Step.run front = front ++ s.nodes := by
  obtain ⟨child, run⟩ := s
  simp only [Stretch.steps, List.foldl_cons, Step.run]
  cases hchild : child.isText with
  | true =>
    obtain ⟨content, n, rfl⟩ := exists_text_of_isText hchild
    exact foldl_run_text front content n run
  | false =>
    have hnodes : Stretch.nodes ⟨child, run⟩ = child :: newText run := by
      cases child with
      | text => contradiction
      | _ => rfl
    rw [foldl_run_of_new fun s n => by
      rw [appendText_concat, appendText_singleton_of_isText_eq_false hchild, List.append_assoc]
      rfl]
    rw [hnodes, List.append_assoc]
    rfl

theorem foldl_stretches (front : List Node) (stretches : List Stretch) :
    (stretches.flatMap Stretch.steps).foldl Step.run front =
      front ++ stretches.flatMap Stretch.nodes := by
  induction stretches generalizing front with
  | nil => simp
  | cons s rest ih =>
    rw [List.flatMap_cons, List.foldl_append, foldl_steps, ih, List.flatMap_cons,
      List.append_assoc]

theorem foldl_children (front children : List Node) :
    (children.map Step.child).foldl Step.run front = front ++ children := by
  induction children generalizing front with
  | nil => simp
  | cons node rest ih => simp [Step.run, ih]

/-- Steps are runs of texts with the other children in between. -/
theorem exists_stretches (steps : List Step) :
    ∃ (first : List Addition) (stretches : List Stretch),
      steps = first.map .append ++ stretches.flatMap Stretch.steps := by
  induction steps with
  | nil => exact ⟨[], [], rfl⟩
  | cons step rest ih =>
    obtain ⟨first, stretches, rfl⟩ := ih
    cases step with
    | append a => exact ⟨a :: first, stretches, rfl⟩
    | child node => exact ⟨[], ⟨node, first⟩ :: stretches, rfl⟩

def TextsMeetAt (nodes : List Node) (k : Nat) : Prop :=
  nodes[k]?.any isText ∧ nodes[k + 1]?.any isText

theorem appendText_cases (children : List Node) (s : String) (n : Nat) :
    (∃ front content m, children = front ++ [text content m] ∧
        appendText children s n = front ++ [text (content ++ s) (m + n)]) ∨
      (∀ last, children.getLast? = some last → last.isText = false) ∧
        appendText children s n = children ++ [text s n] := by
  cases hlast : children.getLast? with
  | none =>
    obtain rfl := List.getLast?_eq_none_iff.mp hlast
    exact .inr ⟨by simp, rfl⟩
  | some last =>
    obtain ⟨front, rfl⟩ := List.getLast?_eq_some_iff.mp hlast
    cases htext : last.isText with
    | true =>
      obtain ⟨content, m, rfl⟩ := exists_text_of_isText htext
      exact .inl ⟨front, content, m, rfl, appendText_concat ..⟩
    | false =>
      refine .inr ⟨by simpa using htext, ?_⟩
      rw [appendText_concat, appendText_singleton_of_isText_eq_false htext, List.append_assoc]
      rfl

theorem getElem?_appendText {children : List Node} {k : Nat} {node : Node}
    (hnode : children[k]? = some node) (h : k + 1 < children.length ∨ node.isText = false)
    (s : String) (n : Nat) : (appendText children s n)[k]? = some node := by
  obtain ⟨hk, hget⟩ := List.getElem?_eq_some_iff.mp hnode
  rcases appendText_cases children s n with ⟨front, content, m, rfl, hafter⟩ | ⟨-, hafter⟩
  · have hne : k ≠ front.length := by
      rintro rfl
      obtain rfl : text content m = node := by simpa using hget
      simp at h
    have hfront : k < front.length := by
      rw [List.length_append, List.length_singleton] at hk
      omega
    rwa [hafter, List.getElem?_append_left hfront, ← List.getElem?_append_left hfront]
  · rwa [hafter, List.getElem?_append_left hk]

theorem TextsMeetAt.of_appendText {children : List Node} {s : String} {n k : Nat}
    (h : TextsMeetAt (appendText children s n) k) : TextsMeetAt children k := by
  rcases appendText_cases children s n with ⟨front, content, m, rfl, hafter⟩ | ⟨hlast, hafter⟩
  · -- A text stands last before and after.
    have hsame : ∀ j : Nat,
        (front ++ [text (content ++ s) (m + n)])[j]?.any isText =
          (front ++ [text content m])[j]?.any isText := by
      intro j
      simp only [List.getElem?_append, List.getElem?_singleton]
      split
      · rfl
      · split <;> rfl
    rw [hafter] at h
    exact ⟨hsame k ▸ h.1, hsame (k + 1) ▸ h.2⟩
  · obtain ⟨hfirst, hsecond⟩ := hafter ▸ h
    rcases Nat.lt_trichotomy (k + 1) children.length with hlt | heq | hgt
    · rw [List.getElem?_append_left (by omega)] at hfirst hsecond
      exact ⟨hfirst, hsecond⟩
    · -- The child in front of the new text is the last one, and no text.
      rw [List.getElem?_append_left (by omega)] at hfirst
      obtain ⟨last, hget, htext⟩ := (Option.any_eq_true _ _).mp hfirst
      have hno := hlast last (by rw [List.getLast?_eq_getElem?, ← heq]; exact hget)
      rw [hno] at htext
      contradiction
    · rw [List.getElem?_eq_none (by rw [List.length_append]; exact hgt)] at hsecond
      contradiction

/-- Whatever is done to the children of a template, they are the ones that were appended by
themselves, and between them one text for each run that follows no text; a run behind a text
lengthens it. A text that is appended leaves every child in front of it alone, and brings no two
texts together. -/
theorem appended_texts_join (children : List Node) (steps : List Step) :
    (∃ (first : List Addition) (stretches : List Stretch),
      children.map Step.child ++ steps =
        first.map Step.append ++ stretches.flatMap Stretch.steps ∧
      steps.foldl Step.run children = newText first ++ stretches.flatMap Stretch.nodes) ∧
    ∀ a : Addition,
      let before := steps.foldl Step.run children
      let after := (steps ++ [Step.append a]).foldl Step.run children
      (∀ (k : Nat) (node : Node), before[k]? = some node →
        k + 1 < before.length ∨ node.isText = false → after[k]? = some node) ∧
      ∀ k, TextsMeetAt after k → TextsMeetAt before k := by
  refine ⟨?_, fun a => ?_⟩
  · obtain ⟨first, stretches, hsteps⟩ := exists_stretches (children.map Step.child ++ steps)
    refine ⟨first, stretches, hsteps, ?_⟩
    calc steps.foldl Step.run children
      _ = (children.map Step.child ++ steps).foldl Step.run [] := by
        rw [List.foldl_append, foldl_children, List.nil_append]
      _ = (stretches.flatMap Stretch.steps).foldl Step.run
            ((first.map Step.append).foldl Step.run []) := by rw [hsteps, List.foldl_append]
      _ = newText first ++ stretches.flatMap Stretch.nodes := by
        rw [foldl_run_of_new (fun _ _ => rfl), List.nil_append, foldl_stretches]
  · intro before after
    have hafter : after = appendText before a.content a.count := List.foldl_append
    rw [hafter]
    exact ⟨fun k node hnode h => getElem?_appendText hnode h _ _, fun k h => h.of_appendText⟩

/-- A text that is appended by itself is not joined to the one in front of it, but is lengthened by
those behind. -/
example :
    [.append ⟨"a", none⟩, .append ⟨"b", some 2⟩, .child (text "c" 1),
        .append ⟨"d", some 0⟩, .child (comment "" 3), .append ⟨"e", none⟩].foldl Step.run [] =
      [text "ab" 3, text "cd" 1, comment "" 3, text "e" 1] := rfl

end TagTemplate.Template.Node
