import TagTemplate.Proofs.Template.Derived

/-! What has been read of a construct is the beginning of a derivation. A character that is taken
goes on with it, one that closes the construct ends it, and one that opens a construct leaves it
waiting for a value. -/
namespace TagTemplate.Grammar
open Template

def noSpaces : Spaces := ⟨[], by simp⟩

def Spaces.push (s : Spaces) (c : Char) (h : isSpace c) : Spaces :=
  ⟨s.chars ++ [c], by
    intro d hd
    rcases List.mem_append.mp hd with hd | hd
    · exact s.blank d hd
    · rw [List.mem_singleton.mp hd]; exact h⟩

/-- The beginnings of derivations: the construct that the reader has made of a text behind its
opening delimiter. Only a document stands in nothing. -/
inductive Begun : (enclosed : Bool) → Construct → List Char → Prop where
  | document (sections : List Section) (escaped : Bool) :
    Begun false (.holder (.template (Node.mergeTexts (sections.map Section.node)) escaped))
      (sections.flatMap Section.spelling ++ escapeIf escaped)
  | template (items : List Item) (escaped : Bool) :
    Begun true (.holder (.template (Node.mergeTexts (Item.nodes items)) escaped))
      (Item.spellings items ++ escapeIf escaped)
  | quoted (quote : Quote) (letters : List (Letter quote.delimiters)) (escaped : Bool) :
    Begun true (.quoted quote (String.ofList (letters.flatMap Letter.content)) escaped)
      (letters.flatMap Letter.spelling ++ escapeIf escaped)
  | comment (text : List Char) (unclosed : tagClose ∉ text) :
    Begun true (.comment (String.ofList text)) (commentMark :: text)
  | name (front : Spaces) (letters : List Char) (named : ∀ c ∈ letters, isNameChar c) :
    Begun true (.holder (.tag (String.ofList letters) [] 0)) (front.chars ++ letters)
  | gap (front : Spaces) (name : Name) (gap : Gap) {turn : Nat} (h : 0 < turn) :
    Begun true (.holder (.tag name.text [] turn)) (front.chars ++ name.chars ++ gap.chars)
  | arguments (front : Spaces) (name : Name) (gap : Gap) (first : Value) (rest : List Argument)
      (back : Spaces) {turn : Nat} (h : 0 < turn) :
    Begun true (.holder (.tag name.text (first.node :: Argument.nodes rest) turn))
      (Tag.call front name gap first rest back).body
  | assigned (front : Spaces) (name : Name) (behind lead : Spaces) :
    Begun true (.holder (.declaration name.text none 1))
      (front.chars ++ name.chars ++ behind.chars ++ assignMark :: lead.chars)
  | valued (front : Spaces) (name : Name) (behind lead : Spaces) (value : Value) (back : Spaces)
      (turn : Nat) :
    Begun true (.holder (.declaration name.text (some value.node) turn))
      (Tag.declaration front name behind lead value back).body

variable {enclosed : Bool} {inner next : Construct} {cs ds : List Char} {c : Char}

theorem Begun.cast (h : Begun enclosed inner cs) (hn : inner = next) (hc : cs = ds) :
    Begun enclosed next ds :=
  hn ▸ hc ▸ h

theorem begun_document_letter (sections : List Section) (l : Letter templateDelimiters) :
    Begun false (.holder (.template
        (Node.appendText (Node.mergeTexts (sections.map Section.node)) (String.ofList l.content)
          l.spelling.length) false))
      (sections.flatMap Section.spelling ++ l.spelling) := by
  have h := Begun.document (sections ++ [.item (.letter l)]) false
  refine h.cast ?_ ?_
  · rw [← Node.mergeTexts_append_text]
    simp [Section.node, Item.node, Letter.node]
  · simp [Section.spelling, Item.spelling, escapeIf]

theorem begun_template_letter (items : List Item) (l : Letter templateDelimiters) :
    Begun true (.holder (.template
        (Node.appendText (Node.mergeTexts (Item.nodes items)) (String.ofList l.content)
          l.spelling.length) false))
      (Item.spellings items ++ l.spelling) := by
  have h := Begun.template (items ++ [.letter l]) false
  refine h.cast ?_ ?_
  · rw [← Node.mergeTexts_append_text]
    simp [Item.nodes_eq_map, Item.node, Letter.node]
  · simp [Item.spellings_eq_flatMap, Item.spelling, escapeIf]

theorem begun_quoted_letter (quote : Quote) (letters : List (Letter quote.delimiters))
    (l : Letter quote.delimiters) :
    Begun true (.quoted quote
        (String.ofList (letters.flatMap Letter.content) ++ String.ofList l.content) false)
      (letters.flatMap Letter.spelling ++ l.spelling) := by
  have h := Begun.quoted quote (letters ++ [l]) false
  refine h.cast ?_ ?_
  · simp [String.ofList_append]
  · simp [escapeIf]

theorem escapeIf_append (cs : List Char) : cs ++ escapeIf false ++ [escapeMark] = cs ++ escapeIf true := by
  simp [escapeIf]

theorem Begun.take (h : Begun enclosed inner cs)
    (hm : inner.move enclosed cs.length c = .ok (.take next)) : Begun enclosed next (cs ++ [c]) := by
  cases h with
  | document sections escaped =>
    rcases moveTemplate_eq_take (Except.ok.inj hm) with ⟨rfl, rfl, rfl⟩ | ⟨l, hl, rfl⟩
    · rw [escapeIf_append]
      exact .document sections true
    · rw [List.append_assoc, ← hl]
      exact begun_document_letter sections l
  | template items escaped =>
    rcases moveTemplate_eq_take (Except.ok.inj hm) with ⟨rfl, rfl, rfl⟩ | ⟨l, hl, rfl⟩
    · rw [escapeIf_append]
      exact .template items true
    · rw [List.append_assoc, ← hl]
      exact begun_template_letter items l
  | quoted quote letters escaped =>
    rcases moveQuoted_eq_take (Except.ok.inj hm) rfl with ⟨rfl, rfl, rfl⟩ | ⟨l, hl, rfl⟩
    · rw [escapeIf_append]
      exact .quoted quote letters true
    · rw [List.append_assoc, ← hl]
      exact begun_quoted_letter quote letters l
  | comment text unclosed =>
    obtain ⟨hc, rfl⟩ := moveComment_eq_take (Except.ok.inj hm) rfl
    have hnext := Begun.comment (text ++ [c]) (by simp [unclosed, Ne.symm hc])
    exact hnext.cast (by simp) rfl
  | name front letters named =>
    rcases moveTag_zero_eq_take hm with ⟨rfl, hn, rfl⟩ | ⟨rfl, hname, rfl⟩ | ⟨hs, rfl⟩ | ⟨hc, rfl⟩
    · rw [List.length_eq_zero_iff.mp hn]
      exact .comment [] List.not_mem_nil
    · have hletters : letters ≠ [] := by rintro rfl; exact hname rfl
      exact (Begun.assigned front ⟨letters, hletters, named⟩ noSpaces noSpaces).cast rfl
        (by simp [noSpaces])
    · cases letters with
      | nil => exact (Begun.name (front.push c hs) [] named).cast rfl (by simp [Spaces.push])
      | cons d rest =>
        have hname : String.ofList (d :: rest) ≠ "" := by simp
        rw [if_neg hname]
        exact Begun.gap front ⟨d :: rest, List.cons_ne_nil d rest, named⟩
          ⟨noSpaces.push c hs, by simp [Spaces.push]⟩ Nat.one_pos
    · have hnext := Begun.name front (letters ++ [c]) (by
        intro d hd
        rcases List.mem_append.mp hd with hd | hd
        · exact named d hd
        · rw [List.mem_singleton.mp hd]; exact hc)
      exact hnext.cast (by simp) (by simp)
  | gap front name gap hturn =>
    -- A comment begins with the first character, so behind a name there is none.
    rcases moveTag_pos_eq_take hturn hm with ⟨-, hn, -⟩ | ⟨rfl, -, rfl⟩ | ⟨hs, later, hlater, rfl⟩
    · exact absurd (List.length_eq_zero_iff.mp hn) (by simp [name.nonempty])
    · exact (Begun.assigned front name gap.toSpaces noSpaces).cast rfl (by simp [noSpaces])
    · exact (Begun.gap front name ⟨gap.push c hs, by simp [Spaces.push]⟩ hlater).cast rfl
        (by simp [Spaces.push])
  | arguments front name gap first rest back hturn =>
    rcases moveTag_pos_eq_take hturn hm with ⟨-, hn, -⟩ | ⟨-, hargs, -⟩ | ⟨hs, later, hlater, rfl⟩
    · exact absurd (List.length_eq_zero_iff.mp hn) (by simp [Tag.body, name.nonempty])
    · contradiction
    · exact (Begun.arguments front name gap first rest (back.push c hs) hlater).cast rfl
        (by simp [Tag.body, Spaces.push])
  | assigned front name behind lead =>
    obtain ⟨hs, rfl⟩ := moveDeclaration_eq_take hm
    exact (Begun.assigned front name behind (lead.push c hs)).cast rfl (by simp [Spaces.push])
  | valued front name behind lead value back turn =>
    obtain ⟨hs, rfl⟩ := moveDeclaration_eq_take hm
    exact (Begun.valued front name behind lead value (back.push c hs) (turn + 1)).cast rfl
      (by simp [Tag.body, Spaces.push])

def opening : Construct → Char
  | .quoted quote _ _ => quote.mark
  | .holder (.template ..) => templateMark
  | _ => tagOpen

theorem Begun.opening_take (h : Begun enclosed inner cs)
    (hm : inner.move enclosed cs.length c = .ok (.take next)) : opening next = opening inner := by
  cases h with
  | document | template =>
    rcases moveTemplate_eq_take (Except.ok.inj hm) with ⟨-, -, rfl⟩ | ⟨-, -, rfl⟩ <;> rfl
  | quoted =>
    rcases moveQuoted_eq_take (Except.ok.inj hm) rfl with ⟨-, -, rfl⟩ | ⟨-, -, rfl⟩ <;> rfl
  | comment => obtain ⟨-, rfl⟩ := moveComment_eq_take (Except.ok.inj hm) rfl; rfl
  | name =>
    rcases moveTag_zero_eq_take hm with ⟨-, -, rfl⟩ | ⟨-, -, rfl⟩ | ⟨-, rfl⟩ | ⟨-, rfl⟩ <;> rfl
  | gap front name gap hturn =>
    rcases moveTag_pos_eq_take hturn hm with ⟨-, hn, -⟩ | ⟨-, -, rfl⟩ | ⟨-, _, -, rfl⟩
    · exact absurd (List.length_eq_zero_iff.mp hn) (by simp [name.nonempty])
    · rfl
    · rfl
  | arguments front name gap first rest back hturn =>
    rcases moveTag_pos_eq_take hturn hm with ⟨-, hn, -⟩ | ⟨-, -, rfl⟩ | ⟨-, _, -, rfl⟩
    · exact absurd (List.length_eq_zero_iff.mp hn) (by simp [Tag.body, name.nonempty])
    · rfl
    · rfl
  | assigned | valued => obtain ⟨-, rfl⟩ := moveDeclaration_eq_take hm; rfl

theorem Begun.close (h : Begun enclosed inner cs)
    (hm : inner.move enclosed cs.length c = .ok .close) :
    enclosed = true ∧ ∃ v : Value, v.opening = opening inner ∧ v.closing = c ∧ v.body = cs ∧
      v.node = inner.toNode (cs.length + 2) := by
  cases h with
  | document sections escaped =>
    have he := (moveTemplate_eq_close (Except.ok.inj hm)).1
    contradiction
  | template items escaped =>
    obtain ⟨-, rfl, rfl⟩ := moveTemplate_eq_close (Except.ok.inj hm)
    refine ⟨rfl, .template items, rfl, rfl, ?_, ?_⟩
    · simp [Value.body, escapeIf]
    · simp [Value.node, Value.body, Construct.toNode, Holder.toNode, escapeIf]
  | quoted quote letters escaped =>
    obtain ⟨rfl, rfl⟩ := moveQuoted_eq_close (Except.ok.inj hm)
    refine ⟨rfl, .quoted quote letters, rfl, rfl, ?_, ?_⟩
    · simp [Value.body, escapeIf]
    · simp [Value.node, Value.body, Construct.toNode, escapeIf]
  | comment text unclosed =>
    obtain rfl := moveComment_eq_close (Except.ok.inj hm)
    refine ⟨rfl, .tag (.comment text unclosed), rfl, rfl, rfl, ?_⟩
    simp [Value.node, Tag.node, Value.body, Tag.body, Construct.toNode]
  | name front letters named =>
    obtain ⟨hname, rfl⟩ := moveTag_eq_close hm
    have hletters : letters ≠ [] := by rintro rfl; exact hname rfl
    refine ⟨rfl, .tag (.bare front ⟨letters, hletters, named⟩ noSpaces), rfl, rfl, ?_, ?_⟩
    · simp [Value.body, Tag.body, noSpaces]
    · simp [Value.node, Tag.node, Value.body, Tag.body, noSpaces, Construct.toNode, Holder.toNode,
        Name.text]
  | gap front name gap hturn =>
    obtain ⟨-, rfl⟩ := moveTag_eq_close hm
    refine ⟨rfl, .tag (.bare front name gap.toSpaces), rfl, rfl, rfl, ?_⟩
    simp [Value.node, Tag.node, Value.body, Tag.body, Construct.toNode, Holder.toNode]
  | arguments front name gap first rest back hturn =>
    obtain ⟨-, rfl⟩ := moveTag_eq_close hm
    refine ⟨rfl, .tag (.call front name gap first rest back), rfl, rfl, rfl, ?_⟩
    simp [Value.node, Tag.node, Value.body, Construct.toNode, Holder.toNode]
  | assigned front name behind lead =>
    have hvalue := (moveDeclaration_eq_close hm).1
    contradiction
  | valued front name behind lead value back turn =>
    obtain ⟨-, rfl⟩ := moveDeclaration_eq_close hm
    refine ⟨rfl, .tag (.declaration front name behind lead value back), rfl, rfl, rfl, ?_⟩
    simp [Value.node, Tag.node, Value.body, Construct.toNode, Holder.toNode]

def Expects (enclosed : Bool) (holder : Holder) (c : Char) (cs : List Char) : Prop :=
  ∀ v : Value, v.opening = c → Begun enclosed (.holder (holder.receive v.node)) (cs ++ v.spelling)

theorem begun_of_opening? (h : Construct.opening? c = some next) :
    opening next = c ∧ Begun true next [] := by
  unfold Construct.opening? at h
  split at h
  · next hc =>
    cases h
    exact ⟨hc.symm, Begun.name noSpaces [] (by simp)⟩
  split at h
  · next hc =>
    cases h
    exact ⟨hc.symm, Begun.template [] false⟩
  split at h
  · next hc =>
    cases h
    exact ⟨hc.symm, Begun.quoted .single [] false⟩
  split at h
  · next hc =>
    cases h
    exact ⟨hc.symm, Begun.quoted .double [] false⟩
  · contradiction

theorem exists_tag_of_opening {v : Value} (h : v.opening = tagOpen) : ∃ t, v = .tag t := by
  cases v with
  | tag t => exact ⟨t, rfl⟩
  | quoted quote letters => cases quote <;> exact absurd h (by simp only [Value.opening]; decide)
  | template items => exact absurd h (by simp only [Value.opening]; decide)

theorem exists_template_of_opening {v : Value} (h : v.opening = templateMark) :
    ∃ items, v = .template items := by
  cases v with
  | tag t => exact absurd h (by simp only [Value.opening]; decide)
  | quoted quote letters => cases quote <;> exact absurd h (by simp only [Value.opening]; decide)
  | template items => exact ⟨items, rfl⟩

theorem begun_document_value (sections : List Section) (sec : Section) {v : Value}
    (hnode : sec.node = v.node) (hspelling : sec.spelling = v.spelling) :
    Begun false
      (.holder (.template (Node.mergeTexts (sections.map Section.node) ++ [v.node]) false))
      (sections.flatMap Section.spelling ++ v.spelling) := by
  refine (Begun.document (sections ++ [sec]) false).cast ?_ ?_
  · rw [← Node.mergeTexts_append_of_isText_eq_false _ v.isText_node]
    simp [hnode]
  · simp [hspelling, escapeIf]

theorem Begun.enter {holder : Holder} (h : Begun enclosed inner cs)
    (hm : inner.move enclosed cs.length c = .ok (.enter holder next)) :
    inner = .holder holder ∧ opening next = c ∧ Begun true next [] ∧
      Expects enclosed holder c cs := by
  cases h with
  | document sections escaped =>
    obtain ⟨rfl, rfl, hcases⟩ := moveTemplate_eq_enter (Except.ok.inj hm)
    rcases hcases with ⟨rfl, rfl⟩ | ⟨-, rfl, rfl⟩
    · refine ⟨rfl, rfl, Begun.name noSpaces [] (by simp), ?_⟩
      intro v hv
      obtain ⟨t, rfl⟩ := exists_tag_of_opening hv
      exact (begun_document_value sections (.item (.tag t)) rfl rfl).cast rfl (by simp [escapeIf])
    · refine ⟨rfl, rfl, Begun.template [] false, ?_⟩
      intro v hv
      obtain ⟨items, rfl⟩ := exists_template_of_opening hv
      exact (begun_document_value sections (.template items) rfl rfl).cast rfl
        (by simp [escapeIf])
  | template items escaped =>
    obtain ⟨rfl, rfl, hcases⟩ := moveTemplate_eq_enter (Except.ok.inj hm)
    rcases hcases with ⟨rfl, rfl⟩ | ⟨he, -, -⟩
    · refine ⟨rfl, rfl, Begun.name noSpaces [] (by simp), ?_⟩
      intro v hv
      obtain ⟨t, rfl⟩ := exists_tag_of_opening hv
      refine (Begun.template (items ++ [.tag t]) false).cast ?_ ?_
      · simp [Item.nodes_eq_map, Item.node, Holder.receive, Value.node,
          Node.mergeTexts_append_of_isText_eq_false _ t.isText_node]
      · simp [Item.spellings_eq_flatMap, Item.spelling, escapeIf]
    · contradiction
  | quoted quote letters escaped => exact absurd (Except.ok.inj hm) moveQuoted_ne_enter
  | comment text unclosed => exact absurd (Except.ok.inj hm) moveComment_ne_enter
  | name front letters named => exact absurd (moveTag_eq_enter hm).1 (Nat.lt_irrefl 0)
  | gap front name gap hturn =>
    obtain ⟨-, hopen, rfl⟩ := moveTag_eq_enter hm
    obtain ⟨rfl, hnext⟩ := begun_of_opening? hopen
    refine ⟨rfl, rfl, hnext, ?_⟩
    intro v _
    exact (Begun.arguments front name gap v [] noSpaces hturn).cast rfl
      (by simp [Tag.body, Argument.spellings, noSpaces, Value.spelling])
  | arguments front name gap first rest back hturn =>
    obtain ⟨-, hopen, rfl⟩ := moveTag_eq_enter hm
    obtain ⟨rfl, hnext⟩ := begun_of_opening? hopen
    refine ⟨rfl, rfl, hnext, ?_⟩
    intro v _
    refine (Begun.arguments front name gap first (rest ++ [.mk back v]) noSpaces hturn).cast ?_ ?_
    · simp [Argument.nodes, Holder.receive]
    · simp [Tag.body, Argument.spellings, noSpaces, Value.spelling]
  | assigned front name behind lead =>
    obtain ⟨-, hopen, rfl⟩ := moveDeclaration_eq_enter hm
    obtain ⟨rfl, hnext⟩ := begun_of_opening? hopen
    refine ⟨rfl, rfl, hnext, ?_⟩
    intro v _
    exact (Begun.valued front name behind lead v noSpaces 1).cast rfl
      (by simp [Tag.body, noSpaces, Value.spelling])
  | valued front name behind lead value back turn =>
    have hvalue := (moveDeclaration_eq_enter hm).1
    contradiction

end TagTemplate.Grammar
