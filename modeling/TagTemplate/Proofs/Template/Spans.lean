import TagTemplate.Proofs.Template.Documents

/-! Where the nodes of a tree stand in its source. Every node has a span as long as the length it
records, and the spans account for every character: those inside a node lie one behind another, and
between them there is only what belongs to the node itself. -/
namespace TagTemplate.Template
open Grammar

def HasAt (source : List Char) (i : Nat) (cs : List Char) : Prop :=
  cs <+: source.drop i

def Blank (cs : List Char) : Prop :=
  ∀ c ∈ cs, isSpace c

/-- The characters that escapes stand for. A special character must have an escape in front of it,
and there it gives itself; any other keeps its escape, and so does the end. -/
def unescape? (special : List Char) : List Char → Option (List Char)
  | [] => some []
  | [c] => if c ∈ special ∧ c ≠ escapeMark then none else some [c]
  | c :: d :: rest =>
    if c = escapeMark then
      (unescape? special rest).map fun cs => if d ∈ special then d :: cs else c :: d :: cs
    else if c ∈ special then none
    else (unescape? special (d :: rest)).map (c :: ·)

/-- A delimiter gives itself behind an escape, and any other character keeps the escape. -/
example : unescape? templateDelimiters "\\\x7ba\\b\\".toList = some "\x7ba\\b\\".toList := by decide

mutual
/-- The node can stand at the index: the characters from there on, as many as its length, are its
delimiters, its own characters and those of the nodes inside it. -/
inductive Placed (source : List Char) : Nat → Node → Prop where
  | text {i : Nat} {span : List Char} {content : String} (hspan : HasAt source i span)
    (hcontent : unescape? templateDelimiters span = some content.toList) :
    Placed source i (.text content span.length)
  | quoted {i : Nat} {quote : Quote} {body : List Char} {content : String}
    (hspan : HasAt source i (quote.mark :: (body ++ [quote.mark])))
    (hcontent : unescape? quote.delimiters body = some content.toList) :
    Placed source i (.quoted quote content (body.length + 2))
  | comment {i : Nat} {content : String}
    (hspan : HasAt source i (tagOpen :: commentMark :: (content.toList ++ [tagClose]))) :
    Placed source i (.comment content (content.toList.length + 3))
  | template {i j n : Nat} {children : List Node} (hopen : HasAt source i [templateMark])
    (hchildren : Filled source (i + 1) children j) (hclose : HasAt source j [templateMark])
    (hn : j + 1 = i + n) : Placed source i (.template children n)
  | tag {i j n : Nat} {front : List Char} {name : String} {arguments : List Node}
    (hfront : Blank front) (hopen : HasAt source i (tagOpen :: (front ++ name.toList)))
    (harguments : Spread source (i + 1 + front.length + name.toList.length) arguments j)
    (hclose : HasAt source j [tagClose]) (hn : j + 1 = i + n) :
    Placed source i (.tag name arguments n)
  | declaration {i j n : Nat} {front behind lead back : List Char} {name : String} {value : Node}
    (hblank : Blank front ∧ Blank behind ∧ Blank lead ∧ Blank back)
    (hopen : HasAt source i (tagOpen :: (front ++ name.toList ++ behind ++ assignMark :: lead)))
    (hj : j = i + front.length + name.toList.length + behind.length + lead.length + 2)
    (hvalue : Placed source j value)
    (hclose : HasAt source (j + value.length) (back ++ [tagClose]))
    (hn : j + value.length + back.length + 1 = i + n) :
    Placed source i (.declaration name (some value) n)

inductive Filled (source : List Char) : Nat → List Node → Nat → Prop where
  | nil (i : Nat) : Filled source i [] i
  | cons {i j : Nat} {node : Node} {rest : List Node} (hnode : Placed source i node)
    (hrest : Filled source (i + node.length) rest j) : Filled source i (node :: rest) j

/-- The nodes lie in order from one index to another, with only spaces around them. -/
inductive Spread (source : List Char) : Nat → List Node → Nat → Prop where
  | nil {i : Nat} {gap : List Char} (hgap : Blank gap) (hspan : HasAt source i gap) :
    Spread source i [] (i + gap.length)
  | cons {i j : Nat} {gap : List Char} {node : Node} {rest : List Node} (hgap : Blank gap)
    (hspan : HasAt source i gap) (hnode : Placed source (i + gap.length) node)
    (hrest : Spread source (i + gap.length + node.length) rest j) :
    Spread source i (node :: rest) j
end

variable {source : List Char} {i j : Nat} {cs ds : List Char}

theorem hasAt_append :
    HasAt source i (cs ++ ds) ↔ HasAt source i cs ∧ HasAt source (i + cs.length) ds := by
  simp only [HasAt, ← List.drop_drop]
  constructor
  · rintro ⟨rest, h⟩
    rw [← h, List.append_assoc]
    exact ⟨List.prefix_append _ _, by simp⟩
  · rintro ⟨⟨rest, h⟩, hds⟩
    rw [← h, List.drop_left] at hds
    rw [← h]
    exact (List.prefix_append_right_inj cs).mpr hds

theorem hasAt_cons {c : Char} :
    HasAt source i (c :: cs) ↔ HasAt source i [c] ∧ HasAt source (i + 1) cs := by
  rw [← List.singleton_append, hasAt_append, List.length_singleton]

theorem hasAt_self (source : List Char) : HasAt source 0 source :=
  List.prefix_rfl

theorem unescape?_letter {special : List Char} (h : escapeMark ∈ special) (l : Letter special)
    (cs : List Char) :
    unescape? special (l.spelling ++ cs) = (unescape? special cs).map (l.content ++ ·) := by
  cases l with
  | plain c hc =>
    have hne : c ≠ escapeMark := fun he => hc (he ▸ h)
    cases cs with
    | nil => simp [Letter.spelling, Letter.content, unescape?, hc]
    | cons d rest => simp [Letter.spelling, Letter.content, unescape?, hc, hne]
  | pair c =>
    by_cases hc : c ∈ special <;> simp [Letter.spelling, Letter.content, unescape?, hc]

theorem unescape?_letters {special : List Char} (h : escapeMark ∈ special)
    (letters : List (Letter special)) :
    unescape? special (letters.flatMap Letter.spelling) =
      some (letters.flatMap Letter.content) := by
  induction letters with
  | nil => rfl
  | cons l rest ih => simp [unescape?_letter h, ih]

theorem Filled.cons_value {v : Value} {nodes : List Node} (hv : Placed source i v.node)
    (h : Filled source (i + v.node.length) nodes j) : Filled source i (v.node.attach nodes) j := by
  rw [Node.attach_of_isText_eq_false v.isText_node]
  exact .cons hv h

theorem Filled.cons_letter {l : Letter templateDelimiters} {nodes : List Node}
    (hl : HasAt source i l.spelling) (h : Filled source (i + l.spelling.length) nodes j) :
    Filled source i (l.node.attach nodes) j := by
  have hescape : escapeMark ∈ templateDelimiters := by decide
  have hplaced : Placed source i l.node := by
    refine .text hl ?_
    have hletter := unescape?_letter hescape l []
    rw [List.append_nil] at hletter
    simpa [unescape?] using hletter
  cases h with
  | nil => exact .cons hplaced (.nil _)
  | @cons _ _ node rest hnode hrest =>
    by_cases htext : node.isText
    · obtain ⟨content, n, rfl⟩ := Node.exists_text_of_isText htext
      cases hnode with
      | @text _ span _ hspan hcontent =>
        have hmerged : Placed source i
            (.text (String.ofList l.content ++ content) (l.spelling ++ span).length) := by
          refine .text (hasAt_append.mpr ⟨hl, hspan⟩) ?_
          rw [unescape?_letter hescape, hcontent]
          simp
        rw [List.length_append] at hmerged
        refine .cons hmerged ?_
        simpa only [Node.length, Nat.add_assoc] using hrest
    · rw [Node.attach_cons_of_not_texts (by simp [htext])]
      exact .cons hplaced (.cons hnode hrest)

theorem placed_comment {text : List Char} (unclosed : tagClose ∉ text)
    (h : HasAt source i (Value.tag (.comment text unclosed)).spelling) :
    Placed source i (Tag.comment text unclosed).node := by
  have hplaced : Placed source i (.comment (String.ofList text) _) :=
    .comment (by simpa [Value.spelling, Value.wrap, Value.opening, Value.closing, Value.body,
      Tag.body] using h)
  simpa [Tag.node, Value.body, Tag.body] using hplaced

theorem placed_quoted {quote : Quote} {letters : List (Letter quote.delimiters)}
    (h : HasAt source i (Value.quoted quote letters).spelling) :
    Placed source i (Value.quoted quote letters).node := by
  have hescape : escapeMark ∈ quote.delimiters := by simp [Quote.delimiters]
  have hcontent := unescape?_letters hescape letters
  rw [← String.toList_ofList (l := letters.flatMap Letter.content)] at hcontent
  have hplaced := Placed.quoted h hcontent
  simpa [Value.node, Value.body] using hplaced

theorem placed_template {items : List Item}
    (hitems : ∀ i, HasAt source i (Item.spellings items) →
      Filled source i (Node.mergeTexts (Item.nodes items)) (i + (Item.spellings items).length))
    (h : HasAt source i (Value.template items).spelling) :
    Placed source i (Value.template items).node := by
  rw [Value.spelling, Value.wrap, hasAt_cons, hasAt_append] at h
  obtain ⟨hopen, hbody, hclose⟩ := h
  refine .template hopen (hitems _ hbody) hclose ?_
  simp only [Value.length_spelling, Value.body]
  omega

theorem placed_named {front : Spaces} {name : Name} {arguments : List Node} {between : List Char}
    (hspread : ∀ i, HasAt source i between →
      Spread source i arguments (i + between.length))
    (h : HasAt source i (tagOpen :: (front.chars ++ name.chars ++ between ++ [tagClose]))) :
    Placed source i (.tag name.text arguments
      (front.chars.length + name.chars.length + between.length + 2)) := by
  have hparts : HasAt source i
      ((tagOpen :: (front.chars ++ name.chars)) ++ between ++ [tagClose]) := by simpa using h
  rw [hasAt_append, hasAt_append, List.length_append, ← Nat.add_assoc] at hparts
  obtain ⟨⟨hopen, hbetween⟩, hclose⟩ := hparts
  have hname : name.text.toList = name.chars := String.toList_ofList
  have hstart : i + (tagOpen :: (front.chars ++ name.chars)).length =
      i + 1 + front.chars.length + name.text.toList.length := by
    simp only [hname, List.length_cons, List.length_append]
    omega
  rw [hstart] at hbetween hclose
  refine .tag front.blank (hname ▸ hopen) (hspread _ hbetween) hclose ?_
  rw [hname]
  omega

theorem placed_bare {front : Spaces} {name : Name} {back : Spaces}
    (h : HasAt source i (Value.tag (.bare front name back)).spelling) :
    Placed source i (Tag.bare front name back).node := by
  have hparts : HasAt source i
      (tagOpen :: (front.chars ++ name.chars ++ back.chars ++ [tagClose])) := by
    simpa [Value.spelling, Value.wrap, Value.opening, Value.closing, Value.body, Tag.body] using h
  have hplaced : Placed source i (.tag name.text [] _) :=
    placed_named (fun _ hback => .nil back.blank hback) hparts
  simpa [Tag.node, Value.body, Tag.body, Nat.add_assoc] using hplaced

theorem spread_cons (lead : Spaces) {value : Value} {nodes : List Node} {between : List Char}
    (hvalue : ∀ i, HasAt source i value.spelling → Placed source i value.node)
    (hrest : ∀ i, HasAt source i between → Spread source i nodes (i + between.length))
    (i : Nat) (h : HasAt source i (lead.chars ++ value.spelling ++ between)) :
    Spread source i (value.node :: nodes)
      (i + (lead.chars ++ value.spelling ++ between).length) := by
  rw [hasAt_append, hasAt_append, List.length_append, ← Nat.add_assoc] at h
  obtain ⟨⟨hlead, hspelling⟩, hbetween⟩ := h
  have hspread := hrest _ hbetween
  rw [List.length_append, List.length_append, ← Nat.add_assoc, ← Nat.add_assoc]
  rw [Value.length_spelling, ← Value.length_node] at hspread ⊢
  exact .cons lead.blank hlead (hvalue _ hspelling) hspread

theorem placed_call {front : Spaces} {name : Name} {gap : Gap} {first : Value}
    {rest : List Argument} {back : Spaces}
    (hfirst : ∀ i, HasAt source i first.spelling → Placed source i first.node)
    (hrest : ∀ i, HasAt source i (Argument.spellings rest ++ back.chars) →
      Spread source i (Argument.nodes rest) (i + (Argument.spellings rest ++ back.chars).length))
    (h : HasAt source i (Value.tag (.call front name gap first rest back)).spelling) :
    Placed source i (Tag.call front name gap first rest back).node := by
  have hparts : HasAt source i (tagOpen :: (front.chars ++ name.chars ++
      (gap.chars ++ first.spelling ++ (Argument.spellings rest ++ back.chars)) ++ [tagClose])) := by
    simpa [Value.spelling, Value.wrap, Value.opening, Value.closing, Value.body, Tag.body] using h
  have hplaced := placed_named (spread_cons gap.toSpaces hfirst hrest) hparts
  simpa [Tag.node, Value.body, Tag.body, Nat.add_assoc] using hplaced

theorem placed_declaration {front : Spaces} {name : Name} {behind lead : Spaces} {value : Value}
    {back : Spaces} (hvalue : ∀ i, HasAt source i value.spelling → Placed source i value.node)
    (h : HasAt source i (Value.tag (.declaration front name behind lead value back)).spelling) :
    Placed source i (Tag.declaration front name behind lead value back).node := by
  have hparts : HasAt source i
      ((tagOpen :: (front.chars ++ name.chars ++ behind.chars ++ assignMark :: lead.chars)) ++
        value.spelling ++ (back.chars ++ [tagClose])) := by
    simpa [Value.spelling, Value.wrap, Value.opening, Value.closing, Value.body, Tag.body] using h
  rw [hasAt_append, hasAt_append, List.length_append, ← Nat.add_assoc] at hparts
  obtain ⟨⟨hopen, hspelling⟩, hclose⟩ := hparts
  have hname : name.text.toList = name.chars := String.toList_ofList
  refine .declaration ⟨front.blank, behind.blank, lead.blank, back.blank⟩ (hname ▸ hopen) ?_
    (hvalue _ hspelling) ?_ ?_
  · simp only [hname, List.length_cons, List.length_append]
    omega
  · rwa [Value.length_spelling, ← Value.length_node] at hclose
  · simp [Value.body, Tag.body]
    omega

mutual
theorem placed_tag : (t : Tag) → (i : Nat) → HasAt source i (Value.tag t).spelling →
    Placed source i t.node
  | .comment _ unclosed, _, h => placed_comment unclosed h
  | .declaration _ _ _ _ value _, _, h => placed_declaration (placed_value value) h
  | .bare .., _, h => placed_bare h
  | .call _ _ _ first rest back, _, h =>
    placed_call (placed_value first) (spread_arguments rest back) h

/-- The node of a value can stand wherever the source has its spelling. -/
theorem placed_value : (v : Value) → (i : Nat) → HasAt source i v.spelling →
    Placed source i v.node
  | .tag t, i, h => placed_tag t i h
  | .quoted .., _, h => placed_quoted h
  | .template items, _, h => placed_template (filled_items items) h

theorem spread_arguments : (rest : List Argument) → (back : Spaces) → (i : Nat) →
    HasAt source i (Argument.spellings rest ++ back.chars) →
    Spread source i (Argument.nodes rest) (i + (Argument.spellings rest ++ back.chars).length)
  | [], back, _, h => .nil back.blank h
  | .mk lead value :: rest, back, i, h => by
    simp only [Argument.spellings, List.append_assoc] at h ⊢
    rw [← Value.spelling] at h ⊢
    rw [← List.append_assoc] at h ⊢
    exact spread_cons lead (placed_value value) (spread_arguments rest back) i h

theorem filled_items : (items : List Item) → (i : Nat) → HasAt source i (Item.spellings items) →
    Filled source i (Node.mergeTexts (Item.nodes items)) (i + (Item.spellings items).length)
  | [], i, _ => .nil i
  | .letter l :: rest, i, h => by
    rw [Item.spellings, hasAt_append] at h
    have hrest := filled_items rest _ h.2
    rw [Nat.add_assoc, ← List.length_append] at hrest
    exact .cons_letter h.1 hrest
  | .tag t :: rest, i, h => by
    rw [Item.spellings, ← Value.body, ← Value.spelling, hasAt_append] at h
    have hrest := filled_items rest _ h.2
    rw [Nat.add_assoc, ← List.length_append] at hrest
    rw [Value.length_spelling, ← Value.length_node] at hrest
    exact .cons_value (v := .tag t) (placed_tag t i h.1) hrest
end

theorem filled_loneEscape (loneEscape : Bool) (h : HasAt source i (escapeIf loneEscape)) :
    Filled source i (Node.mergeTexts (loneEscapeNodes loneEscape))
      (i + (escapeIf loneEscape).length) := by
  cases loneEscape with
  | false => exact .nil i
  | true =>
    have hplaced : Placed source i (.text (String.singleton escapeMark) 1) := .text h rfl
    exact .cons hplaced (.nil _)

theorem filled_sections (sections : List Section) (loneEscape : Bool) (i : Nat)
    (h : HasAt source i (sections.flatMap Section.spelling ++ escapeIf loneEscape)) :
    Filled source i
      (Node.mergeTexts (sections.map Section.node ++ loneEscapeNodes loneEscape))
      (i + (sections.flatMap Section.spelling ++ escapeIf loneEscape).length) := by
  induction sections generalizing i with
  | nil => exact filled_loneEscape loneEscape h
  | cons sec rest ih =>
    rw [List.flatMap_cons, List.append_assoc] at h ⊢
    rw [hasAt_append] at h
    have hrest := ih _ h.2
    rw [Nat.add_assoc, ← List.length_append] at hrest
    cases sec with
    | item item =>
      cases item with
      | letter l => exact .cons_letter h.1 hrest
      | tag t =>
        have hlength : (Section.item (.tag t)).spelling.length = (Value.tag t).node.length :=
          (Value.tag t).length_spelling.trans (Value.tag t).length_node.symm
        rw [hlength] at hrest
        exact .cons_value (v := .tag t) (placed_tag t i h.1) hrest
    | template items =>
      have hlength :
          (Section.template items).spelling.length = (Value.template items).node.length :=
        (Value.template items).length_spelling.trans (Value.template items).length_node.symm
      rw [hlength] at hrest
      exact .cons_value (placed_value (.template items) i h.1) hrest

/-- The root of what compiles is as long as the source, and its children, placed one behind another
from the first character on, fill all of it. -/
theorem compile_accounts_for_source {source : String} {t : Node} (h : compile source = .ok t) :
    t.length = source.toList.length ∧
      ∃ children, t = .template children source.toList.length ∧
        Filled source.toList 0 children source.toList.length := by
  rw [compile_eq_ok_iff] at h
  obtain ⟨d, hspelling, rfl, -⟩ := h
  have hfilled := filled_sections d.sections d.loneEscape 0 (hasAt_self d.spelling)
  rw [Nat.zero_add, ← Document.spelling, hspelling] at hfilled
  rw [Document.tree, hspelling]
  exact ⟨rfl, _, rfl, hfilled⟩

/-- Escapes, quotes, spaces, arguments without spaces between them and a lone escape at the end. -/
theorem mixed_source_accounted :
    let source := "a\\\x7b\x7b x = 'b\\'' \x7d\x7by \x7bx\x7d\x60c\x60\x7d\x7b!z\x7d\\"
    ∃ t children, compile source = .ok t ∧ t = .template children 31 ∧
      Filled source.toList 0 children 31 := by
  intro source
  have h : ∃ t, compile source = .ok t := by
    unfold source
    exact ⟨_, rfl⟩
  have hlength : source.toList.length = 31 := by decide
  obtain ⟨t, ht⟩ := h
  obtain ⟨-, children, hchildren, hfilled⟩ := compile_accounts_for_source ht
  rw [hlength] at hchildren hfilled
  exact ⟨t, children, ht, hchildren, hfilled⟩

end TagTemplate.Template
