import TagTemplate.Proofs.Template.Moves
import TagTemplate.Proofs.Template.Run

/-! What a derivation spells is read, and its tree is what the reading gives. Every part of a
derivation leads the construct it stands in from one state to the next, whatever follows it. -/
namespace TagTemplate.Template.Reader
open Grammar

/-- What a construct is read in: the constructs that wait for it, and how many may. -/
structure Context where
  limit : Nat
  outer : List (Holder × Nat)
  delimited : Bool

def Context.enclosed (x : Context) : Bool :=
  x.delimited || !x.outer.isEmpty

def Context.state (x : Context) (inner : Construct) (n : Nat) : State :=
  ⟨inner, n, x.outer, x.delimited⟩

/-- Reading `cs` leads from one construct to another, however much has been read of the first. -/
def Leads (x : Context) (inner : Construct) (cs : List Char) (next : Construct) : Prop :=
  ∀ n, run? x.limit (x.state inner n) cs = some (x.state next (n + cs.length))

variable {x : Context} {limit n : Nat} {inner middle next : Construct} {p q : List Char}

theorem Leads.refl : Leads x inner [] inner := fun _ => rfl

theorem Leads.append (hp : Leads x inner p middle) (hq : Leads x middle q next) :
    Leads x inner (p ++ q) next := by
  intro n
  rw [run?_append_of_run? (hp n), hq, List.length_append, Nat.add_assoc]

theorem step_of_take {c : Char} (h : inner.move x.enclosed n c = .ok (.take next)) :
    step x.limit (x.state inner n) c = .ok (.reading (x.state next (n + 1))) :=
  step_of_move (s := x.state inner n) h

theorem leads_of_take {c : Char} (h : ∀ n, inner.move x.enclosed n c = .ok (.take next)) :
    Leads x inner [c] next :=
  fun n => run?_cons_of_step (step_of_take (h n)) []

theorem leads_template_letter (l : Letter templateDelimiters) (nodes : List Node) :
    Leads x (.holder (.template (Node.mergeTexts nodes) false)) l.spelling
      (.holder (.template (Node.mergeTexts (nodes ++ [l.node])) false)) := by
  cases l with
  | plain c h =>
    simp only [templateDelimiters, List.mem_cons, List.not_mem_nil, or_false, not_or] at h
    obtain ⟨h1, h2, h3⟩ := h
    apply leads_of_take
    intro n
    simp [Construct.move, moveTemplate, h1, h2, h3, escapedText_plain, Letter.node,
      Letter.content, Letter.spelling, Node.mergeTexts_append_text]
  | pair c =>
    have hopen : Leads x (.holder (.template (Node.mergeTexts nodes) false))
        [escapeMark] (.holder (.template (Node.mergeTexts nodes) true)) := leads_of_take fun _ => rfl
    apply hopen.append
    apply leads_of_take
    intro n
    simp [Construct.move, moveTemplate, escapedText_pair, Letter.node, Letter.spelling,
      Node.mergeTexts_append_text]

theorem leads_quoted_letter (quote : Quote) (l : Letter quote.delimiters) (content : String) :
    Leads x (.quoted quote content false) l.spelling
      (.quoted quote (content ++ String.ofList l.content) false) := by
  cases l with
  | plain c h =>
    simp only [Quote.delimiters, List.mem_cons, List.not_mem_nil, or_false, not_or] at h
    obtain ⟨h1, h2⟩ := h
    apply leads_of_take
    intro n
    simp [Construct.move, moveQuoted, h1, h2, escapedText_plain, Letter.content]
  | pair c =>
    have hopen : Leads x (.quoted quote content false) [escapeMark]
        (.quoted quote content true) := leads_of_take fun _ => rfl
    apply hopen.append
    apply leads_of_take
    intro n
    simp [Construct.move, moveQuoted, escapedText_pair]

theorem leads_quoted (quote : Quote) (letters : List (Letter quote.delimiters)) (content : String) :
    Leads x (.quoted quote content false) (letters.flatMap Letter.spelling)
      (.quoted quote (content ++ String.ofList (letters.flatMap Letter.content)) false) := by
  induction letters generalizing content with
  | nil => simpa using Leads.refl
  | cons l rest ih =>
    rw [List.flatMap_cons, List.flatMap_cons, String.ofList_append, ← String.append_assoc]
    exact (leads_quoted_letter quote l content).append (ih _)

theorem leads_front {cs : List Char} (h : ∀ c ∈ cs, isSpace c) :
    Leads x .emptyTag cs .emptyTag := by
  induction cs with
  | nil => exact Leads.refl
  | cons c rest ih =>
    have hc : Leads x .emptyTag [c] .emptyTag :=
      leads_of_take fun _ => (move_tag_space (h c List.mem_cons_self) "" [] 0)
    exact hc.append (ih fun d hd => h d (List.mem_cons_of_mem c hd))

theorem leads_name {cs : List Char} (h : ∀ c ∈ cs, isNameChar c) (name : String) :
    Leads x (.holder (.tag name [] 0)) cs
      (.holder (.tag (name ++ String.ofList cs) [] 0)) := by
  induction cs generalizing name with
  | nil => simpa using Leads.refl
  | cons c rest ih =>
    have hc : Leads x (.holder (.tag name [] 0)) [c]
        (.holder (.tag (name.push c) [] 0)) :=
      leads_of_take fun _ => (move_tag_nameChar (h c List.mem_cons_self) name [])
    rw [← push_append_ofList]
    exact hc.append (ih (fun d hd => h d (List.mem_cons_of_mem c hd)) _)

theorem leads_space {c : Char} (h : isSpace c) (name : String) (arguments : List Node) {turn : Nat}
    (ht : 0 < turn) :
    ∃ later, 0 < later ∧ Leads x (.holder (.tag name arguments turn)) [c]
      (.holder (.tag name arguments later)) := by
  refine ⟨_, ?_, leads_of_take fun _ => (move_tag_space h name arguments turn)⟩
  rw [if_neg (Nat.ne_of_gt ht)]
  split <;> omega

theorem leads_spaces {cs : List Char} (h : ∀ c ∈ cs, isSpace c) (name : String)
    (arguments : List Node) {turn : Nat} (ht : 0 < turn) :
    ∃ later, 0 < later ∧ Leads x (.holder (.tag name arguments turn)) cs
      (.holder (.tag name arguments later)) := by
  induction cs generalizing turn with
  | nil => exact ⟨turn, ht, Leads.refl⟩
  | cons c rest ih =>
    obtain ⟨middle, hmiddle, hc⟩ :=
      leads_space (x := x) (h c List.mem_cons_self) name arguments ht
    obtain ⟨later, hlater, hrest⟩ := ih (fun d hd => h d (List.mem_cons_of_mem c hd)) hmiddle
    exact ⟨later, hlater, hc.append hrest⟩

theorem leads_behind {cs : List Char} (h : ∀ c ∈ cs, isSpace c) {name : String} (hn : name ≠ "") :
    ∃ turn, (cs ≠ [] → 0 < turn) ∧
      Leads x (.holder (.tag name [] 0)) cs (.holder (.tag name [] turn)) := by
  cases cs with
  | nil => exact ⟨0, fun h => absurd rfl h, Leads.refl⟩
  | cons c rest =>
    have hc : Leads x (.holder (.tag name [] 0)) [c] (.holder (.tag name [] 1)) := by
      simpa [hn] using leads_of_take fun _ => (move_tag_space (h c List.mem_cons_self) name [] 0)
    obtain ⟨turn, hturn, hrest⟩ := leads_spaces (x := x)
      (fun d hd => h d (List.mem_cons_of_mem c hd)) name [] Nat.one_pos
    exact ⟨turn, fun _ => hturn, hc.append hrest⟩

theorem leads_assign {name : String} (hn : name ≠ "") (turn : Nat) :
    Leads x (.holder (.tag name [] turn)) [assignMark]
      (.holder (.declaration name none 1)) := by
  apply leads_of_take
  intro n
  have h1 : assignMark ≠ tagClose := by decide
  have h2 : assignMark ≠ commentMark := by decide
  simp [Construct.move, moveTag, h1, h2, hn]

theorem leads_lead {cs : List Char} (h : ∀ c ∈ cs, isSpace c) (name : String) :
    Leads x (.holder (.declaration name none 1)) cs
      (.holder (.declaration name none 1)) := by
  induction cs with
  | nil => exact Leads.refl
  | cons c rest ih =>
    have hc : Leads x (.holder (.declaration name none 1)) [c]
        (.holder (.declaration name none 1)) :=
      leads_of_take fun _ => (move_declaration_space (h c List.mem_cons_self) name none 1)
    exact hc.append (ih fun d hd => h d (List.mem_cons_of_mem c hd))

theorem leads_back {cs : List Char} (h : ∀ c ∈ cs, isSpace c) (name : String) (value : Node)
    (turn : Nat) :
    ∃ later, Leads x (.holder (.declaration name (some value) turn)) cs
      (.holder (.declaration name (some value) later)) := by
  induction cs generalizing turn with
  | nil => exact ⟨turn, Leads.refl⟩
  | cons c rest ih =>
    have hc : Leads x (.holder (.declaration name (some value) turn)) [c]
        (.holder (.declaration name (some value) (turn + 1))) :=
      leads_of_take fun _ => (move_declaration_space (h c List.mem_cons_self) name (some value) turn)
    obtain ⟨later, hrest⟩ := ih (fun d hd => h d (List.mem_cons_of_mem c hd)) (turn + 1)
    exact ⟨later, hc.append hrest⟩

theorem leads_comment {text : List Char} (h : tagClose ∉ text) (content : String) :
    Leads x (.comment content) text
      (.comment (content ++ String.ofList text)) := by
  induction text generalizing content with
  | nil => simpa using Leads.refl
  | cons c rest ih =>
    simp only [List.mem_cons, not_or] at h
    have hc : Leads x (.comment content) [c] (.comment (content.push c)) := by
      apply leads_of_take
      intro n
      simp [Construct.move, moveComment, Ne.symm h.1]
    rw [← push_append_ofList]
    exact hc.append (ih h.2 _)

/-- Inside its delimiters the value is read up to a construct that its closing delimiter completes,
unless it nests too deep for what holds it. -/
def Readable (v : Value) : Prop :=
  ∀ x : Context, x.outer.length + v.node.nesting ≤ x.limit + 1 →
    ∃ last, run? x.limit (x.state v.initial 0) v.body = some (x.state last v.body.length) ∧
      last.move true v.body.length v.closing = .ok .close ∧
      last.toNode (v.body.length + 2) = v.node

theorem Leads.run?_zero (h : Leads x inner p next) :
    run? x.limit (x.state inner 0) p = some (x.state next p.length) := by
  simpa using h 0

theorem nesting_pos (v : Value) : 0 < v.node.nesting := by
  cases v with
  | tag t => cases t <;> simp [Value.node, Tag.node, Node.nesting]
  | _ => simp [Value.node, Node.nesting]

theorem Readable.leads {v : Value} (hv : Readable v) {holder : Holder}
    (hopen : ∀ n, (Construct.holder holder).move x.enclosed n v.opening =
      .ok (.enter holder v.initial))
    (hlimit : x.outer.length + v.node.nesting ≤ x.limit) :
    Leads x (.holder holder) v.spelling (.holder (holder.receive v.node)) := by
  intro n
  have hroom : x.outer.length < x.limit := by
    have := nesting_pos v
    omega
  -- The body is read with the holder around it, which the closing delimiter brings back.
  let y : Context := { x with outer := (holder, n) :: x.outer }
  obtain ⟨last, hbody, hclose, hnode⟩ := hv y (by simp only [y, List.length_cons]; omega)
  have hfirst : step x.limit (x.state (.holder holder) n) v.opening =
      .ok (.reading (y.state v.initial 0)) := by
    rw [step_of_move (s := x.state (.holder holder) n) (hopen n)]
    exact if_pos hroom
  have henclosed : (y.state last v.body.length).enclosed = true := by
    simp [State.enclosed, y, Context.state]
  have hlast : step x.limit (y.state last v.body.length) v.closing =
      .ok (.reading (x.state (.holder (holder.receive v.node)) (n + v.spelling.length))) := by
    rw [step_of_move (m := .close) (by rw [henclosed]; exact hclose)]
    simp [State.apply, State.close, y, Context.state, hnode]
  rw [Value.spelling, Value.wrap, run?_cons_of_step hfirst, run?_append_of_run? hbody,
    run?_cons_of_step hlast]
  rfl

theorem readable_comment {text : List Char} (h : tagClose ∉ text) :
    Readable (.tag (.comment text h)) := by
  intro x _
  have hmark : step x.limit (x.state .emptyTag 0) commentMark =
      .ok (.reading (x.state (.comment "") 1)) := step_of_take rfl
  have hbody := leads_comment (x := x) h "" 1
  rw [String.empty_append, Nat.add_comm] at hbody
  refine ⟨_, (run?_cons_of_step hmark text).trans hbody, rfl, ?_⟩
  simp [Value.node, Tag.node, Value.body, Tag.body, Construct.toNode]

theorem text_ne_empty (name : Name) : name.text ≠ "" := by
  intro he
  apply name.nonempty
  simpa [Name.text] using congrArg String.toList he

theorem leads_named (front : Spaces) (name : Name) :
    Leads x .emptyTag (front.chars ++ name.chars) (.holder (.tag name.text [] 0)) := by
  have hname := leads_name (x := x) name.named ""
  rw [String.empty_append] at hname
  exact (leads_front front.blank).append hname

theorem move_tag_close {name : String} (hn : name ≠ "") (arguments : List Node) (turn n : Nat) :
    (Construct.holder (.tag name arguments turn)).move true n tagClose = .ok .close := by
  simp [Construct.move, moveTag, hn]

theorem readable_declaration (front : Spaces) (name : Name) (behind lead : Spaces) {value : Value}
    (back : Spaces) (hv : Readable value) :
    Readable (.tag (.declaration front name behind lead value back)) := by
  intro x hx
  simp only [Value.node, Tag.node, Node.nesting] at hx
  obtain ⟨turn, -, hbehind⟩ := leads_behind (x := x) behind.blank (text_ne_empty name)
  have hassign := leads_assign (x := x) (text_ne_empty name) turn
  have hlead := leads_lead (x := x) lead.blank name.text
  have hvalue := hv.leads (x := x) (value.move_declaration_opening name.text x.enclosed) (by omega)
  obtain ⟨later, hback⟩ := leads_back (x := x) back.blank name.text value.node 1
  have hbody := ((leads_named front name).append hbehind).append
    (hassign.append ((hlead.append hvalue).append hback))
  refine ⟨_, hbody.run?_zero, ?_, ?_⟩
  · simp [Construct.move, moveDeclaration, Value.closing]
  · simp [Construct.toNode, Holder.toNode, Value.node, Tag.node, Value.body]

theorem readable_bare (front : Spaces) (name : Name) (back : Spaces) :
    Readable (.tag (.bare front name back)) := by
  intro x _
  obtain ⟨turn, -, hback⟩ := leads_behind (x := x) back.blank (text_ne_empty name)
  have hbody := (leads_named front name).append hback
  refine ⟨_, hbody.run?_zero, move_tag_close (text_ne_empty name) [] turn _, ?_⟩
  simp [Construct.toNode, Holder.toNode, Value.node, Tag.node, Value.body]

def ArgumentsRead (rest : List Argument) : Prop :=
  ∀ (x : Context) (name : String) (arguments : List Node) (turn : Nat), 0 < turn →
    x.outer.length + Node.deepest (Argument.nodes rest) ≤ x.limit →
    ∃ later, 0 < later ∧ Leads x (.holder (.tag name arguments turn)) (Argument.spellings rest)
      (.holder (.tag name (arguments ++ Argument.nodes rest) later))

theorem readable_call (front : Spaces) (name : Name) (gap : Gap) {first : Value}
    {rest : List Argument} (back : Spaces) (hv : Readable first) (hrest : ArgumentsRead rest) :
    Readable (.tag (.call front name gap first rest back)) := by
  intro x hx
  simp only [Value.node, Tag.node, Node.nesting, Node.deepest] at hx
  obtain ⟨turn, hturn, hgap⟩ := leads_behind (x := x) gap.blank (text_ne_empty name)
  have hfirst := hv.leads (x := x)
    (first.move_tag_opening name.text [] (hturn gap.nonempty) x.enclosed) (by omega)
  obtain ⟨middle, hmiddle, hothers⟩ :=
    hrest x name.text [first.node] turn (hturn gap.nonempty) (by omega)
  obtain ⟨later, -, hback⟩ := leads_spaces (x := x) back.blank name.text
    (first.node :: Argument.nodes rest) hmiddle
  have hbody :=
    ((((leads_named front name).append hgap).append hfirst).append hothers).append hback
  refine ⟨_, hbody.run?_zero, move_tag_close (text_ne_empty name) _ later _, ?_⟩
  simp [Construct.toNode, Holder.toNode, Value.node, Tag.node, Value.body]

theorem argumentsRead_cons (lead : Spaces) {value : Value} {rest : List Argument}
    (hv : Readable value) (hrest : ArgumentsRead rest) : ArgumentsRead (.mk lead value :: rest) := by
  intro x name arguments turn hturn hx
  simp only [Argument.nodes, Node.deepest] at hx
  obtain ⟨middle, hmiddle, hlead⟩ := leads_spaces (x := x) lead.blank name arguments hturn
  have hvalue := hv.leads (x := x) (value.move_tag_opening name arguments hmiddle x.enclosed)
    (by omega)
  obtain ⟨later, hlater, hothers⟩ :=
    hrest x name (arguments ++ [value.node]) middle hmiddle (by omega)
  have hall := (hlead.append hvalue).append hothers
  rw [List.append_assoc arguments] at hall
  exact ⟨later, hlater, hall⟩

def ItemsRead (items : List Item) : Prop :=
  ∀ (x : Context) (nodes : List Node), x.outer.length + Node.deepest (Item.nodes items) ≤ x.limit →
    Leads x (.holder (.template (Node.mergeTexts nodes) false)) (Item.spellings items)
      (.holder (.template (Node.mergeTexts (nodes ++ Item.nodes items)) false))

theorem leads_template_value {v : Value} (nodes : List Node)
    (hopen : ∀ n, (Construct.holder (.template (Node.mergeTexts nodes) false)).move x.enclosed n
      v.opening = .ok (.enter (.template (Node.mergeTexts nodes) false) v.initial))
    (hv : Readable v) (hlimit : x.outer.length + v.node.nesting ≤ x.limit) :
    Leads x (.holder (.template (Node.mergeTexts nodes) false)) v.spelling
      (.holder (.template (Node.mergeTexts (nodes ++ [v.node])) false)) := by
  rw [Node.mergeTexts_append_of_isText_eq_false _ v.isText_node]
  exact hv.leads hopen hlimit

theorem itemsRead_tag {t : Tag} {rest : List Item} (ht : Readable (.tag t))
    (hrest : ItemsRead rest) : ItemsRead (.tag t :: rest) := by
  intro x nodes hx
  simp only [Item.nodes, Node.deepest] at hx
  have htag := leads_template_value (x := x) nodes (fun _ => rfl) ht
    (by simp only [Value.node]; omega)
  have hall := htag.append (hrest x (nodes ++ [t.node]) (by omega))
  rw [List.append_assoc nodes] at hall
  exact hall

theorem itemsRead_letter (l : Letter templateDelimiters) {rest : List Item}
    (hrest : ItemsRead rest) : ItemsRead (.letter l :: rest) := by
  intro x nodes hx
  simp only [Item.nodes, Node.deepest] at hx
  have hall := (leads_template_letter (x := x) l nodes).append
    (hrest x (nodes ++ [l.node]) (by omega))
  rw [List.append_assoc nodes] at hall
  exact hall

theorem readable_quoted (quote : Quote) (letters : List (Letter quote.delimiters)) :
    Readable (.quoted quote letters) := by
  intro x _
  have hbody := leads_quoted (x := x) quote letters ""
  rw [String.empty_append] at hbody
  refine ⟨_, hbody.run?_zero, ?_, by simp [Construct.toNode, Value.node, Value.body]⟩
  cases quote <;> rfl

theorem readable_template {items : List Item} (h : ItemsRead items) :
    Readable (.template items) := by
  intro x hx
  simp only [Value.node, Node.nesting, Node.deepest_mergeTexts] at hx
  refine ⟨_, (h x [] (by omega)).run?_zero, rfl, ?_⟩
  simp [Construct.toNode, Holder.toNode, Value.node, Value.body]

mutual
theorem readable_tag : (t : Tag) → Readable (.tag t)
  | .comment _ unclosed => readable_comment unclosed
  | .declaration front name behind lead value back =>
    readable_declaration front name behind lead back (readable value)
  | .bare front name back => readable_bare front name back
  | .call front name gap first rest back =>
    readable_call front name gap back (readable first) (argumentsRead rest)

theorem readable : (v : Value) → Readable v
  | .tag t => readable_tag t
  | .quoted quote letters => readable_quoted quote letters
  | .template items => readable_template (itemsRead items)

theorem argumentsRead : (rest : List Argument) → ArgumentsRead rest
  | [] => fun _ _ _ turn h _ =>
    ⟨turn, h, by rw [Argument.nodes, List.append_nil]; exact Leads.refl⟩
  | .mk lead value :: rest => argumentsRead_cons lead (readable value) (argumentsRead rest)

theorem itemsRead : (items : List Item) → ItemsRead items
  | [] => fun _ _ _ => by rw [Item.nodes, List.append_nil]; exact Leads.refl
  | .letter l :: rest => itemsRead_letter l (itemsRead rest)
  | .tag t :: rest => itemsRead_tag (readable_tag t) (itemsRead rest)
end

def documentContext (limit : Nat) : Context := ⟨limit, [], false⟩

@[simp] theorem limit_documentContext (limit : Nat) : (documentContext limit).limit = limit := rfl

theorem leads_section (sec : Section) (nodes : List Node) (h : sec.node.nesting ≤ limit) :
    Leads (documentContext limit) (.holder (.template (Node.mergeTexts nodes) false)) sec.spelling
      (.holder (.template (Node.mergeTexts (nodes ++ [sec.node])) false)) := by
  have hlimit : (documentContext limit).outer.length + sec.node.nesting ≤ limit := by
    simpa [documentContext] using h
  cases sec with
  | item i =>
    cases i with
    | letter l => exact leads_template_letter l nodes
    | tag t => exact leads_template_value nodes (fun _ => rfl) (readable_tag t) hlimit
  | template items =>
    exact leads_template_value nodes (fun _ => rfl) (readable (.template items)) hlimit

theorem leads_sections (sections : List Section) (nodes : List Node)
    (h : Node.deepest (sections.map Section.node) ≤ limit) :
    Leads (documentContext limit) (.holder (.template (Node.mergeTexts nodes) false))
      (sections.flatMap Section.spelling)
      (.holder (.template (Node.mergeTexts (nodes ++ sections.map Section.node)) false)) := by
  induction sections generalizing nodes with
  | nil => simpa using Leads.refl
  | cons sec rest ih =>
    simp only [List.map_cons, Node.deepest, Nat.max_le] at h
    have hall := (leads_section sec nodes h.1).append (ih (nodes ++ [sec.node]) h.2)
    rw [List.append_assoc nodes] at hall
    exact hall

theorem finish?_document (children : List Node) (escaped : Bool) (limit n : Nat) :
    finish? ((documentContext limit).state (.holder (.template children escaped)) n) =
      some (.template (if escaped then Node.appendText children (String.singleton escapeMark) 1
        else children) n) := by
  cases escaped <;> rfl

/-- A derived document that does not nest too deep is read, and gives its tree. -/
theorem read_document (d : Document) (h : d.tree.nesting ≤ limit + 1) (index : Int) :
    read limit (.start .emptyTemplate false) index d.spelling = .ok d.tree := by
  have hdeep : Node.deepest (d.sections.map Section.node) ≤ limit := by
    simp only [Document.tree, Node.nesting, Node.deepest_mergeTexts, Node.deepest_append] at h
    omega
  have hsections := (leads_sections d.sections [] hdeep).run?_zero
  have hstart : State.start .emptyTemplate false =
      (documentContext limit).state (.holder (.template (Node.mergeTexts []) false)) 0 := rfl
  rw [limit_documentContext] at hsections
  rw [Document.spelling, hstart, read_append_of_run? hsections]
  cases hlone : d.loneEscape with
  | false =>
    rw [escapeIf, if_neg Bool.false_ne_true, read_nil_of_finish? (finish?_document _ false limit _)]
    simp [Document.tree, Document.spelling, hlone, loneEscapeNodes, escapeIf]
  | true =>
    have hescape : step limit ((documentContext limit).state
        (.holder (.template (Node.mergeTexts ([] ++ d.sections.map Section.node)) false))
          (d.sections.flatMap Section.spelling).length) escapeMark =
        .ok (.reading ((documentContext limit).state
          (.holder (.template (Node.mergeTexts ([] ++ d.sections.map Section.node)) true))
            ((d.sections.flatMap Section.spelling).length + 1))) := step_of_take rfl
    rw [escapeIf, if_pos rfl, read_cons_of_step hescape,
      read_nil_of_finish? (finish?_document _ true limit _)]
    simp [Document.tree, Document.spelling, hlone, loneEscapeNodes, escapeIf,
      Node.mergeTexts_append_text]

end TagTemplate.Template.Reader
