import TagTemplate.Proofs.Scan.Outcome
import TagTemplate.Proofs.Template.Frames
import TagTemplate.Template.Handlers

/-! The chains of handlers read what the reader reads. For every character the first handler that
does not skip it does what the reader does with it, so no chain comes to a stall. -/
namespace TagTemplate.Template
open Scan Reader

def Build.construct (b : Build) : Construct :=
  match b.node with
  | .quoted quote content _ => .quoted quote content b.escaped
  | .template children _ => .holder (.template children b.escaped)
  | .tag name arguments _ => .holder (.tag name arguments b.turn)
  | .declaration name value _ => .holder (.declaration name value b.turn)
  | .comment content _ | .text content _ | .foreign content _ => .comment content

def Production.Builds : Production → Node → (turn : Nat) → Prop
  | string, .quoted .., _ => True
  | template, .template .., _ => True
  | tag, .tag .., _ | tag, .comment .., _ => True
  | tag, .declaration .., turn => 0 < turn
  | _, _, _ => False

/-- What a production has built behind `n` characters of its body, while it is open. -/
structure Stands (p : Production) (b : Build) (n : Nat) : Prop where
  builds : p.Builds b.node b.turn
  length : b.node.length = n
  closed : b.closed = false

def Follows (data : List Char) (x : Setting) (p : Production) (b : Build) (n : Nat)
    (o : Outcome (Breakdown Refusal) Build) : Except Fault Move → Prop
  | .error fault => o = x.fail fault n ∨
    ∃ next, o = .finish next 1 ∧ settle (p.endHandlers x) (n + 1) next = .error (x.fault fault n)
  | .ok (.take inner) => ∃ next, o = .take next 1 ∧ next.construct = inner ∧ Stands p next (n + 1)
  | .ok .close => ∃ next, o = .finish next 1 ∧
    (settle (p.endHandlers x) (n + 1) next).map x.complete = .ok (b.construct.toNode (n + 2))
  | .ok (.enter holder inner) => ∃ q : Production, o = x.call q n b ∧
    q.construct data (x.body + n) = inner ∧ ∀ child : Node,
      Build.construct { b with node := b.node.receive child } = .holder (holder.receive child) ∧
        Stands p { b with node := b.node.receive child } (n + child.length)

variable {data : List Char} {x : Setting} {p : Production} {b : Build} {i n : Nat} {c : Char}

theorem lengthen_lengthen (node : Node) (k m : Nat) :
    (node.lengthen k).lengthen m = node.lengthen (k + m) := by
  cases node <;> simp only [Node.lengthen, Nat.add_assoc]

theorem lengthen_eq_toNode (h : Stands p b n) (k : Nat) :
    b.node.lengthen k = b.construct.toNode (n + k) := by
  obtain ⟨node, closed, escaped, turn⟩ := b
  obtain ⟨hbuilds, rfl, -⟩ := h
  cases node with
  | text | foreign => cases p <;> exact hbuilds.elim
  | _ => rfl

theorem lacksValue_lengthen (b : Build) (k : Nat) (closed : Bool) :
    Build.lacksValue { b with node := b.node.lengthen k, closed } = b.lacksValue := by
  obtain ⟨node, _, escaped, turn⟩ := b
  cases node with
  | declaration name value n => cases value <;> rfl
  | _ => rfl

theorem keepEscape_of_delimited (hd : x.delimited = true) (position : Nat) (b : Build) :
    keepEscape x position b = .ok b := by
  unfold keepEscape
  split <;> simp [hd]

theorem checkComplete_of_value (hvalue : b.lacksValue = false) (position : Nat) :
    checkComplete x position b = x.checkClosed position b := by
  simp only [checkComplete, hvalue, Bool.false_eq_true, if_false]

theorem checkComplete_of_lacksValue (hvalue : b.lacksValue = true) (position : Nat) :
    checkComplete x position b = .error (x.fault .unexpectedEnd (position - 1)) := by
  simp only [checkComplete, hvalue, if_true]

theorem settle_of_closed (hclosed : b.closed = true) (hd : x.delimited = true)
    (hvalue : b.lacksValue = false) (position : Nat) :
    settle (p.endHandlers x) position b = .ok b := by
  have hcheck : x.checkClosed position b = .ok b := by simp [Setting.checkClosed, hclosed]
  cases p with
  | string => rw [Production.endHandlers, settle_one, hcheck]
  | template => rw [Production.endHandlers, settle_two, keepEscape_of_delimited hd, Except.bind, hcheck]
  | tag => rw [Production.endHandlers, settle_one, checkComplete_of_value hvalue, hcheck]

def Setting.begin (x : Setting) (c : Char) (i : Nat) (b : Build) :
    Outcome (Breakdown Refusal) Build :=
  match Production.ofOpening? c with
  | some p => x.call p i b
  | none => x.fail .invalidToken i

theorem handleSpace_of_isSpace (hs : isSpace c) (hturn : 0 < b.turn) :
    handleSpace c n b =
      .take { b with node := b.node.lengthen 1, turn := if b.ended then b.turn + 1 else b.turn } 1 := by
  unfold handleSpace
  rw [if_neg]
  simp only [hs, Bool.not_true, Bool.false_eq_true, or_false]
  omega

theorem handleSpace_of_not_isSpace (hs : isSpace c = false) : handleSpace c n b = .skip := by
  unfold handleSpace
  rw [if_pos]
  simp [hs]

theorem handleValue_of_not_comment (h : ∀ content n, b.node ≠ .comment content n) :
    handleValue x c i b =
      if isSpace c then .skip
      else if b.valued then x.fail .unexpectedToken i
      else x.begin c i b := by
  unfold handleValue
  split
  · next content n hnode => exact absurd hnode (h content n)
  · rfl

theorem firstOutcome_comment {content : String} (h : b.node = .comment content n) :
    firstOutcome (Production.tag.handlers x) c i b =
      if c = tagClose ∧ x.delimited then Setting.closing b
      else .take { b with node := .comment (content.push c) (n + 1) } 1 := by
  simp only [Production.handlers, firstOutcome, handleTagClose, handleComment, h]
  split
  · rfl
  · simp only [Outcome.skip_orElse, Outcome.take_orElse]

theorem firstOutcome_declaration {name : String} {value : Option Node}
    (h : b.node = .declaration name value n) (hturn : 0 < b.turn) :
    firstOutcome (Production.tag.handlers x) c i b =
      if c = tagClose ∧ x.delimited then Setting.closing b
      else if isSpace c then
        .take { b with
          node := b.node.lengthen 1, turn := if value.isSome then b.turn + 1 else b.turn } 1
      else if 1 < b.turn ∨ value.isSome then x.fail .unexpectedToken i
      else x.begin c i b := by
  have hvalue := handleValue_of_not_comment (x := x) (c := c) (i := i) (b := b) (by simp [h])
  have hvalued : (b.valued = true) = (1 < b.turn ∨ value.isSome) := by simp [Build.valued, h]
  have hended : b.ended = value.isSome := by simp [Build.ended, h]
  simp only [Production.handlers, firstOutcome, handleTagClose, handleComment, handleAssign,
    handleName, h, Outcome.skip_orElse, Outcome.orElse_skip]
  by_cases hclose : c = tagClose ∧ x.delimited
  · simp only [hclose, and_self, if_true]
    rfl
  simp only [hclose, if_false, Outcome.skip_orElse]
  cases hs : isSpace c with
  | true =>
    rw [handleSpace_of_isSpace hs hturn, hended]
    simp [h]
  | false =>
    rw [handleSpace_of_not_isSpace hs, hvalue]
    simp [hs, hvalued]

/-- The order of the cases is the order of the handlers. -/
theorem firstOutcome_tag {name : String} {arguments : List Node}
    (h : b.node = .tag name arguments n) :
    firstOutcome (Production.tag.handlers x) c i b =
      if c = tagClose ∧ x.delimited then
        if name = "" then x.fail .expressionExpected i else Setting.closing b
      else if c = commentMark ∧ i = 0 then .take { b with node := .comment "" (n + 1) } 1
      else if c = assignMark then
        if arguments ≠ [] then x.fail .unexpectedToken i
        else if name = "" then x.fail .invalidName i
        else .take { b with node := .declaration name none (n + 1), turn := 1 } 1
      else if b.turn = 0 then
        if isSpace c then
          .take { b with
            node := .tag name arguments (n + 1), turn := if name = "" then 0 else 1 } 1
        else if isNameChar c then
          .take { b with node := .tag (name.push c) arguments (n + 1) } 1
        else x.fail .invalidName i
      else if isSpace c then
        .take { b with
          node := .tag name arguments (n + 1)
          turn := if b.turn ≤ arguments.length then b.turn + 1 else b.turn } 1
      else x.begin c i b := by
  have hvalue := handleValue_of_not_comment (x := x) (c := c) (i := i) (b := b) (by simp [h])
  have hvalued : b.valued = false := by simp [Build.valued, h]
  have hended : b.ended = decide (b.turn ≤ arguments.length) := by simp [Build.ended, h]
  simp only [Production.handlers, firstOutcome, handleTagClose, handleComment, handleAssign,
    handleName, h, Outcome.orElse_skip]
  by_cases hclose : c = tagClose ∧ x.delimited
  · by_cases hname : name = ""
    · simp only [hclose, hname, and_self, if_true]
      rfl
    · simp only [hclose, hname, and_self, if_true, if_false]
      rfl
  simp only [hclose, if_false, Outcome.skip_orElse]
  by_cases hcomment : c = commentMark ∧ i = 0
  · simp only [hcomment, and_self, if_true, Outcome.take_orElse]
  simp only [hcomment, if_false, Outcome.skip_orElse]
  by_cases hassign : c = assignMark
  · simp only [hassign, ne_eq, not_true_eq_false, if_true, if_false]
    by_cases harguments : arguments = []
    · by_cases hname : name = ""
      · simp only [harguments, hname, not_true_eq_false, if_true, if_false]
        rfl
      · simp only [harguments, hname, not_true_eq_false, if_false, Outcome.take_orElse]
    · simp only [harguments, not_false_eq_true, if_true]
      rfl
  simp only [hassign, ne_eq, not_false_eq_true, if_true, if_false, Outcome.skip_orElse]
  by_cases hturn : b.turn = 0
  · simp only [hturn, not_true_eq_false, if_true, if_false, Nat.zero_add]
    split
    · rw [Outcome.take_orElse]
    split
    · rw [Outcome.take_orElse]
    · rfl
  simp only [hturn, not_false_eq_true, if_true, if_false, Outcome.skip_orElse]
  cases hs : isSpace c with
  | true =>
    rw [handleSpace_of_isSpace hs (Nat.pos_of_ne_zero hturn), hended]
    simp [h, Node.lengthen]
  | false =>
    rw [handleSpace_of_not_isSpace hs, hvalue]
    simp [hs, hvalued]

theorem follows_closing (data : List Char) (h : Stands p b n) (hd : x.delimited = true)
    (hvalue : b.lacksValue = false) :
    Follows data x p b n (Setting.closing b) (.ok .close) := by
  refine ⟨_, rfl, ?_⟩
  rw [settle_of_closed rfl hd (by rw [lacksValue_lengthen, hvalue])]
  simp only [Except.map, Setting.complete, hd, if_true]
  rw [lengthen_lengthen, lengthen_eq_toNode h]

@[simp] theorem call_orElse (o : Outcome (Breakdown Refusal) Build) :
    (x.call p n b).orElse o = x.call p n b := by
  unfold Setting.call
  split <;> rfl

theorem follows_string (h : Stands .string b n) :
    Follows data x .string b n (firstOutcome (Production.string.handlers x) c n b)
      (b.construct.move x.delimited n c) := by
  have hclosing := follows_closing data (x := x) h
  obtain ⟨node, closed, escaped, turn⟩ := b
  obtain ⟨hbuilds, hlength, hclosed⟩ := h
  obtain rfl : closed = false := hclosed
  cases node with
  | quoted quote content k =>
    obtain rfl : k = n := hlength
    simp only [Build.construct, Construct.move, moveQuoted, Production.handlers, firstOutcome,
      handleEscape, handleQuote, handleStringLetter]
    by_cases hescape : c = escapeMark ∧ !escaped
    · simp only [hescape, and_self, if_true, Outcome.take_orElse]
      exact ⟨_, rfl, rfl, trivial, rfl, rfl⟩
    simp only [hescape, if_false, Outcome.skip_orElse]
    by_cases hclose : c = quote.mark ∧ x.delimited ∧ !escaped
    · simp only [hclose, and_self, if_true]
      exact hclosing hclose.2.1 rfl
    · simp only [hclose, if_false, Outcome.skip_orElse, Outcome.take_orElse]
      exact ⟨_, rfl, rfl, trivial, rfl, rfl⟩
  | _ => exact hbuilds.elim

theorem follows_template (hc : data[x.body + n]? = some c) (h : Stands .template b n) :
    Follows data x .template b n (firstOutcome (Production.template.handlers x) c n b)
      (b.construct.move x.delimited n c) := by
  have hclosing := follows_closing data (x := x) h
  obtain ⟨node, closed, escaped, turn⟩ := b
  obtain ⟨hbuilds, hlength, hclosed⟩ := h
  obtain rfl : closed = false := hclosed
  cases node with
  | template children k =>
    obtain rfl : k = n := hlength
    simp only [Build.construct, Construct.move, moveTemplate, Production.handlers, firstOutcome,
      handleEscape, handleTagOpen, handleTemplateMark, handleTemplateLetter]
    by_cases hescape : c = escapeMark ∧ !escaped
    · simp only [hescape, and_self, if_true, Outcome.take_orElse]
      exact ⟨_, rfl, rfl, trivial, rfl, rfl⟩
    simp only [hescape, if_false, Outcome.skip_orElse]
    by_cases htag : c = tagOpen ∧ !escaped
    · simp only [htag, and_self, if_true, call_orElse]
      obtain ⟨rfl, hunescaped⟩ := htag
      obtain rfl : escaped = false := by simpa using hunescaped
      exact ⟨.tag, rfl, rfl, fun child => ⟨rfl, trivial, rfl, rfl⟩⟩
    simp only [htag, if_false, Outcome.skip_orElse]
    by_cases hmark : c = templateMark ∧ !escaped
    · obtain ⟨rfl, hunescaped⟩ := hmark
      obtain rfl : escaped = false := by simpa using hunescaped
      cases hd : x.delimited with
      | true =>
        simp only [ne_eq, not_true_eq_false, Bool.false_eq_true, or_self, if_false, if_true]
        exact hclosing hd rfl
      | false =>
        simp only [ne_eq, not_true_eq_false, Bool.false_eq_true, or_self, if_false, call_orElse]
        exact ⟨.template, rfl, rfl, fun child => ⟨rfl, trivial, rfl, rfl⟩⟩
    · have hletter : c ≠ templateMark ∨ escaped = true := by
        cases escaped <;> simp_all
      simp only [hmark, hletter, if_true, if_false, Outcome.skip_orElse, Outcome.take_orElse]
      exact ⟨_, rfl, rfl, trivial, rfl, rfl⟩
  | _ => exact hbuilds.elim

theorem follows_comment {content : String} {k : Nat} (h : Stands .tag b n)
    (hnode : b.node = .comment content k) :
    Follows data x .tag b n (firstOutcome (Production.tag.handlers x) c n b)
      (b.construct.move x.delimited n c) := by
  have hclosing := follows_closing data (x := x) h
  obtain ⟨node, closed, escaped, turn⟩ := b
  obtain ⟨-, hlength, hclosed⟩ := h
  obtain rfl : closed = false := hclosed
  obtain rfl : node = .comment content k := hnode
  obtain rfl : k = n := hlength
  rw [firstOutcome_comment rfl]
  simp only [Build.construct, Construct.move, moveComment]
  by_cases hclose : c = tagClose ∧ x.delimited
  · simp only [hclose, and_self, if_true]
    exact hclosing hclose.2 rfl
  · simp only [hclose, if_false]
    exact ⟨_, rfl, rfl, trivial, rfl, rfl⟩

theorem ofOpening?_eq_some {start : Nat} {inner : Construct} (hc : data[start]? = some c)
    (h : Construct.opening? c = some inner) :
    ∃ q, Production.ofOpening? c = some q ∧ q.construct data start = inner := by
  unfold Construct.opening? at h
  split at h
  · next htag =>
    subst htag
    exact ⟨.tag, rfl, Option.some.inj h⟩
  split at h
  · next hmark =>
    subst hmark
    exact ⟨.template, rfl, Option.some.inj h⟩
  split at h
  · next hquote =>
    subst hquote
    refine ⟨.string, rfl, ?_⟩
    rw [← Option.some.inj h, Production.construct, hc]
    rfl
  split at h
  · next hquote =>
    subst hquote
    refine ⟨.string, rfl, ?_⟩
    rw [← Option.some.inj h, Production.construct, hc]
    rfl
  · contradiction

theorem ofOpening?_eq_none (h : Construct.opening? c = none) : Production.ofOpening? c = none := by
  unfold Construct.opening? at h
  unfold Production.ofOpening?
  grind

theorem follows_value {holder : Holder} (hc : data[x.body + n]? = some c)
    (hreceive : ∀ child : Node,
      Build.construct { b with node := b.node.receive child } = .holder (holder.receive child) ∧
        Stands p { b with node := b.node.receive child } (n + child.length)) :
    Follows data x p b n (x.begin c n b) (moveValue holder c) := by
  unfold Setting.begin moveValue
  cases h : Construct.opening? c with
  | none =>
    rw [ofOpening?_eq_none h]
    exact .inl rfl
  | some inner =>
    obtain ⟨q, hq, hinner⟩ := ofOpening?_eq_some hc h
    rw [hq]
    exact ⟨q, rfl, hinner, hreceive⟩

theorem follows_declaration {name : String} {value : Option Node} {k : Nat}
    (hc : data[x.body + n]? = some c) (h : Stands .tag b n)
    (hnode : b.node = .declaration name value k) :
    Follows data x .tag b n (firstOutcome (Production.tag.handlers x) c n b)
      (b.construct.move x.delimited n c) := by
  have hclosing := follows_closing data (x := x) h
  obtain ⟨node, closed, escaped, turn⟩ := b
  obtain ⟨hturn, hlength, hclosed⟩ := h
  obtain rfl : closed = false := hclosed
  obtain rfl : node = .declaration name value k := hnode
  obtain rfl : k = n := hlength
  replace hturn : 0 < turn := hturn
  rw [firstOutcome_declaration rfl hturn]
  simp only [Build.construct, Construct.move, moveDeclaration]
  by_cases hclose : c = tagClose ∧ x.delimited
  · simp only [hclose, and_self, if_true]
    cases value with
    | none =>
      -- The brace is taken, and the end handler tells that the value is missing.
      refine .inr ⟨_, rfl, ?_⟩
      rw [Production.endHandlers, settle_one, checkComplete_of_lacksValue rfl]
      simp
    | some v => exact hclosing hclose.2 rfl
  simp only [hclose, if_false]
  by_cases hs : isSpace c
  · simp only [hs, if_true]
    refine ⟨_, rfl, rfl, ?_, rfl, rfl⟩
    show 0 < if value.isSome then turn + 1 else turn
    split <;> omega
  simp only [hs, if_false, Bool.false_eq_true]
  by_cases hvalued : 1 < turn ∨ value.isSome
  · simp only [hvalued, if_true]
    exact .inl rfl
  · simp only [hvalued, if_false]
    exact follows_value hc fun child => ⟨rfl, hturn, rfl, rfl⟩

theorem follows_tag {name : String} {arguments : List Node} {k : Nat}
    (hc : data[x.body + n]? = some c) (h : Stands .tag b n)
    (hnode : b.node = .tag name arguments k) :
    Follows data x .tag b n (firstOutcome (Production.tag.handlers x) c n b)
      (b.construct.move x.delimited n c) := by
  have hclosing := follows_closing data (x := x) h
  obtain ⟨node, closed, escaped, turn⟩ := b
  obtain ⟨-, hlength, hclosed⟩ := h
  obtain rfl : closed = false := hclosed
  obtain rfl : node = .tag name arguments k := hnode
  obtain rfl : k = n := hlength
  rw [firstOutcome_tag rfl]
  simp only [Build.construct, Construct.move, moveTag]
  by_cases hclose : c = tagClose ∧ x.delimited
  · simp only [hclose, and_self, if_true]
    by_cases hname : name = ""
    · simp only [hname, if_true]
      exact .inl rfl
    · simp only [hname, if_false]
      exact hclosing hclose.2 rfl
  simp only [hclose, if_false]
  by_cases hcomment : c = commentMark ∧ k = 0
  · simp only [hcomment, and_self, if_true]
    exact ⟨_, rfl, rfl, trivial, rfl, rfl⟩
  simp only [hcomment, if_false]
  by_cases hassign : c = assignMark
  · simp only [hassign, if_true]
    by_cases harguments : arguments = []
    · by_cases hname : name = ""
      · simp only [harguments, hname, ne_eq, not_true_eq_false, if_true, if_false]
        exact .inl rfl
      · simp only [harguments, hname, ne_eq, not_true_eq_false, if_false]
        exact ⟨_, rfl, rfl, Nat.one_pos, rfl, rfl⟩
    · simp only [harguments, ne_eq, not_false_eq_true, if_true]
      exact .inl rfl
  simp only [hassign, if_false]
  by_cases hturn : turn = 0
  · simp only [hturn, if_true, moveName]
    by_cases hs : isSpace c
    · simp only [hs, if_true]
      exact ⟨_, rfl, rfl, trivial, rfl, rfl⟩
    by_cases hn : isNameChar c
    · simp only [hs, hn, if_true, if_false, Bool.false_eq_true]
      exact ⟨_, rfl, rfl, trivial, rfl, rfl⟩
    · simp only [hs, hn, if_false, Bool.false_eq_true]
      exact .inl rfl
  simp only [hturn, if_false]
  by_cases hs : isSpace c
  · simp only [hs, if_true]
    exact ⟨_, rfl, rfl, trivial, rfl, rfl⟩
  · simp only [hs, if_false, Bool.false_eq_true]
    exact follows_value hc fun child => ⟨rfl, trivial, rfl, rfl⟩

theorem follows (hc : data[x.body + n]? = some c) (h : Stands p b n) :
    Follows data x p b n (firstOutcome (p.handlers x) c n b)
      (b.construct.move x.delimited n c) := by
  cases p with
  | string => exact follows_string h
  | template => exact follows_template hc h
  | tag =>
    cases hnode : b.node with
    | comment content k => exact follows_comment h hnode
    | declaration name value k => exact follows_declaration hc h hnode
    | tag name arguments k => exact follows_tag hc h hnode
    | _ => exact absurd h.builds (by simp [hnode, Production.Builds])

theorem settle_of_delimited (h : Stands p b n) (hd : x.delimited = true) :
    settle (p.endHandlers x) n b = .error (x.fault .unexpectedEnd (n - 1)) := by
  have hcheck : x.checkClosed n b = .error (x.fault .unexpectedEnd (n - 1)) := by
    simp [Setting.checkClosed, h.closed, hd]
  cases p with
  | string => rw [Production.endHandlers, settle_one, hcheck]
  | template => rw [Production.endHandlers, settle_two, keepEscape_of_delimited hd, Except.bind, hcheck]
  | tag =>
    rw [Production.endHandlers, settle_one]
    cases hvalue : b.lacksValue with
    | true => exact checkComplete_of_lacksValue hvalue n
    | false => rw [checkComplete_of_value hvalue, hcheck]

theorem complete_of_not_delimited (h : Stands p b n) (hd : x.delimited = false) :
    x.complete b = b.construct.toNode n := by
  simp only [Setting.complete, hd, Bool.false_eq_true, if_false]
  exact lengthen_eq_toNode h 0

/-- What the end of the text makes of a production is what it makes of the reader's state. -/
theorem settle_of_stands (h : Stands p b n) :
    (settle (p.endHandlers x) n b).map x.complete =
      match finish? ⟨b.construct, n, [], x.delimited⟩ with
      | some node => .ok node
      | none => .error (x.fault .unexpectedEnd (n - 1)) := by
  cases hd : x.delimited with
  | true =>
    rw [settle_of_delimited h hd]
    rfl
  | false =>
    have hcheck : ∀ b : Build, x.checkClosed n b = .ok b := by simp [Setting.checkClosed, hd]
    have hcomplete := complete_of_not_delimited h hd
    obtain ⟨node, closed, escaped, turn⟩ := b
    obtain ⟨hbuilds, hlength, -⟩ := h
    cases p with
    | string =>
      rw [Production.endHandlers, settle_one, hcheck, Except.map, hcomplete]
      cases node with
      | quoted quote content k => rfl
      | _ => exact hbuilds.elim
    | template =>
      rw [Production.endHandlers, settle_two]
      cases node with
      | template children k =>
        obtain rfl : k = n := hlength
        cases escaped with
        | false =>
          simp only [keepEscape, Bool.false_eq_true, false_and, if_false, Except.bind, hcheck,
            Except.map, hcomplete]
          rfl
        | true =>
          simp only [keepEscape, hd, Bool.not_false, and_self, if_true, Except.bind, hcheck,
            Except.map, Setting.complete, Bool.false_eq_true, if_false]
          rfl
      | _ => exact hbuilds.elim
    | tag =>
      rw [Production.endHandlers, settle_one]
      cases node with
      | declaration name value k =>
        cases value with
        | none =>
          rw [checkComplete_of_lacksValue rfl]
          rfl
        | some value =>
          rw [checkComplete_of_value rfl, hcheck, Except.map, hcomplete]
          rfl
      | tag | comment =>
        rw [checkComplete_of_value rfl, hcheck, Except.map, hcomplete]
        rfl
      | _ => exact hbuilds.elim

end TagTemplate.Template
